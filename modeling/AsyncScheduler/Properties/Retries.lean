import Mathlib.Order.Filter.AtTopBot.Basic
import Mathlib.Order.Filter.Cofinite
import Mathlib.Data.Nat.Nth
import AsyncScheduler.Properties.StuckStores

/-!
# Bounded retries

Phase 2 compares the attempts in the cached document with the retries allowed, but counts an attempt
in the row only.
-/

namespace AsyncScheduler
open TaskReconciler

/-- One tick of a deployment: the instance that runs it, what its scan returns, how its phases
proceed and the state it starts from. -/
structure TickCall where
  instanceId : String
  scanned : List String
  schedule : List Nat
  world : World

namespace TickCall
variable (k : TickCall) (rc : TaskReconciler) (x : String)

def reconciler : TaskReconciler := { rc with instanceId := k.instanceId }

def after : World := (k.reconciler rc).ticked k.scanned k.schedule k.world

def Takes : Prop :=
  (k.reconciler rc).Leads k.world.redis ∧ ∃ t ∈ (k.reconciler rc).tickTaken k.scanned k.world, t.idText = x

def Requeues : Prop :=
  (k.reconciler rc).Leads k.world.redis ∧
    ∃ t ∈ (k.reconciler rc).tickTaken k.scanned k.world, rc.Requeues t ∧ t.idText = x

instance : Decidable (k.Takes rc x) := inferInstanceAs (Decidable (_ ∧ _))

instance : Decidable (k.Requeues rc x) := inferInstanceAs (Decidable (_ ∧ _))

def Admitted : Prop := (k.reconciler rc).TickAdmitted k.scanned k.world

instance : Decidable (k.Admitted rc) := inferInstanceAs (Decidable (TickAdmitted _ _ _))

end TickCall

/-- Ticks of a deployment over which a task with a document keeps being stuck: nobody else touches
its document, and until it says `failed` phase 2 takes the task on again and again, in ticks in
which the breaker lets the requeues through. -/
structure StuckTicks (rc : TaskReconciler) (x : String) (d : TaskDoc) (tick : ℕ → TickCall) : Prop where
  keyed : ∀ n, (tick n).world.Keyed
  start : (tick 0).world.redis.get (taskKey x) = some (.task d)
  alive : d.status ≠ some TaskStatus.failed.value
  kept : ∀ n, (tick (n + 1)).world.redis.get (taskKey x) = ((tick n).after rc).redis.get (taskKey x)
  stuck : ∀ n, (tick n).world.cachedStatus x ≠ some TaskStatus.failed.value →
    ∃ k ≥ n, (tick k).Takes rc x ∧ (tick k).Admitted rc

section
variable {rc : TaskReconciler} {x : String} {d : TaskDoc} {k : TickCall}

theorem World.cachedStatus_of_get {w : World} (h : w.redis.get (taskKey x) = some (.task d)) :
    w.cachedStatus x = d.status := by
  unfold World.cachedStatus
  rw [h]
  rfl

theorem get_prepared_of_task {w : World} (h : w.redis.get (taskKey x) = some (.task d)) :
    (rc.prepared w).redis.get (taskKey x) = some (.task d) := by
  rw [rc.get_prepared_of_truthy (by rw [h]; rfl), h]

section
variable (hkeyed : k.world.Keyed) (hget : k.world.redis.get (taskKey x) = some (.task d))
include hkeyed hget

theorem eq_of_taken {t : TaskDoc} (ht : t ∈ (k.reconciler rc).tickTaken k.scanned k.world) (hn : t.idText = x) :
    t = d ∧ isStuckCandidate d = true := by
  obtain ⟨hd, he⟩ := get_of_mem_tickTaken hkeyed ht
  rw [hn, get_prepared_of_task hget] at hd
  cases hd
  exact ⟨rfl, he.candidate⟩

theorem requeues_iff : k.Requeues rc x ↔ k.Takes rc x ∧ rc.Requeues d := by
  constructor
  · rintro ⟨hl, t, ht, hr, hn⟩
    obtain ⟨rfl, _⟩ := eq_of_taken hkeyed hget ht hn
    exact ⟨⟨hl, t, ht, hn⟩, hr⟩
  · rintro ⟨⟨hl, t, ht, hn⟩, hr⟩
    obtain ⟨rfl, _⟩ := eq_of_taken hkeyed hget ht hn
    exact ⟨hl, t, ht, hr, hn⟩

/-- The document after a tick: marked failed if the tick takes it for the last time. -/
theorem get_after :
    (k.after rc).redis.get (taskKey x) =
      some (.task (if (k.Takes rc x ∧ k.Admitted rc) ∧ ¬ rc.Requeues d then markFailed d else d)) := by
  unfold TickCall.after
  by_cases hl : (k.reconciler rc).Leads k.world.redis
  · rw [get_ticked _ _ _ hl, get_prepared_of_task hget]
    have hf : x ∈ (k.reconciler rc).failIds ((k.reconciler rc).tickTaken k.scanned k.world) ↔
        k.Takes rc x ∧ ¬ rc.Requeues d := by
      refine mem_failIds_iff.trans ⟨?_, ?_⟩
      · rintro ⟨t, ht, hf, hn⟩
        obtain ⟨rfl, _⟩ := eq_of_taken hkeyed hget ht hn
        exact ⟨⟨hl, t, ht, hn⟩, hf⟩
      · rintro ⟨⟨_, t, ht, hn⟩, hf⟩
        obtain ⟨rfl, _⟩ := eq_of_taken hkeyed hget ht hn
        exact ⟨t, ht, hf, hn⟩
    by_cases hm : (k.Takes rc x ∧ k.Admitted rc) ∧ ¬ rc.Requeues d
    · rw [if_pos hm, if_pos ⟨hm.1.2, hf.mpr ⟨hm.1.1, hm.2⟩⟩]
      rfl
    · rw [if_neg hm, if_neg]
      rintro ⟨ha, hme⟩
      obtain ⟨hta, hr⟩ := hf.mp hme
      exact hm ⟨⟨hta, ha⟩, hr⟩
  · rw [get_ticked_other _ _ _ hl, hget, if_neg fun h => hl h.1.1.1]

end

end

namespace StuckTicks
variable {rc : TaskReconciler} {x : String} {d : TaskDoc} {tick : ℕ → TickCall} (h : StuckTicks rc x d tick)
include h

theorem get_of_requeues (hr : rc.Requeues d) (n : ℕ) :
    (tick n).world.redis.get (taskKey x) = some (.task d) := by
  induction n with
  | zero => exact h.start
  | succ n ih => rw [h.kept n, get_after (h.keyed n) ih, if_neg fun hm => hm.2 hr]

theorem get_cases (n : ℕ) :
    (tick n).world.redis.get (taskKey x) = some (.task d) ∨
      (tick n).world.redis.get (taskKey x) = some (.task (markFailed d)) := by
  induction n with
  | zero => exact .inl h.start
  | succ n ih =>
    rw [h.kept n]
    rcases ih with hget | hget
    · rw [get_after (h.keyed n) hget]
      split
      · exact .inr rfl
      · exact .inl rfl
    · -- marking a document twice is marking it once
      rw [get_after (h.keyed n) hget]
      split <;> exact .inr rfl

theorem get_of_takes {n : ℕ} (hta : (tick n).Takes rc x) :
    (tick n).world.redis.get (taskKey x) = some (.task d) := by
  rcases h.get_cases n with hget | hget
  · exact hget
  · obtain ⟨_, t, ht, hn⟩ := hta
    obtain ⟨_, hc⟩ := eq_of_taken (h.keyed n) hget ht hn
    exact absurd rfl (status_of_candidate hc).2

theorem count_unbounded (hr : rc.Requeues d) (B : ℕ) :
    ∃ N, B ≤ Nat.count (fun n => (tick n).Requeues rc x) N := by
  have ha : ∀ n, ∃ k ≥ n, (tick k).Requeues rc x := by
    intro n
    have hs := World.cachedStatus_of_get (h.get_of_requeues hr n)
    obtain ⟨k, hk, ht, _⟩ := h.stuck n (hs ▸ h.alive)
    exact ⟨k, hk, (requeues_iff (h.keyed k) (h.get_of_requeues hr k)).mpr ⟨ht, hr⟩⟩
  have hi : {n | (tick n).Requeues rc x}.Infinite :=
    Nat.frequently_atTop_iff_infinite.mp (Filter.frequently_atTop.mpr ha)
  exact ⟨Nat.nth (fun n => (tick n).Requeues rc x) B, (Nat.count_nth_of_infinite hi B).ge⟩

theorem not_requeues (hf : ¬ rc.Requeues d) (n : ℕ) : ¬ (tick n).Requeues rc x := by
  rintro ⟨hl, t, ht, hr, hn⟩
  have hget := h.get_of_takes ⟨hl, t, ht, hn⟩
  obtain ⟨rfl, _⟩ := eq_of_taken (h.keyed n) hget ht hn
  exact hf hr

theorem failed_after (hf : ¬ rc.Requeues d) : ∃ n, ((tick n).after rc).cachedStatus x = some TaskStatus.failed.value := by
  have hs := World.cachedStatus_of_get h.start
  obtain ⟨n, _, ht, ha⟩ := h.stuck 0 (hs ▸ h.alive)
  have haf : ((tick n).after rc).redis.get (taskKey x) = some (.task (markFailed d)) := by
    rw [get_after (h.keyed n) (h.get_of_takes ht), if_pos ⟨⟨ht, ha⟩, hf⟩]
  exact ⟨n, World.cachedStatus_of_get haf⟩

end StuckTicks

/-- Over all ticks that find a task stuck, it is requeued no more than its document allows and
then marked as failed, exactly when its document has no retries left from the start. Otherwise
it is requeued without end. -/
theorem retries_bounded_iff (rc : TaskReconciler) (x : String) (d : TaskDoc) (tick : ℕ → TickCall)
    (h : StuckTicks rc x d tick) :
    ((∀ N, Nat.count (fun n => (tick n).Requeues rc x) N ≤ (d.maxRetries.getD 0).toNat) ∧
      ∃ n, ((tick n).after rc).cachedStatus x = some TaskStatus.failed.value) ↔ ¬ rc.Requeues d := by
  constructor
  · rintro ⟨hb, _⟩ hr
    obtain ⟨N, hN⟩ := h.count_unbounded hr ((d.maxRetries.getD 0).toNat + 1)
    have hle := hb N
    omega
  · intro hf
    refine ⟨fun N => ?_, h.failed_after hf⟩
    have hz : Nat.count (fun n => (tick n).Requeues rc x) N = 0 :=
      (Nat.count_iff_forall_not).mpr fun n _ => h.not_requeues hf n
    omega

/-- The task of a dead worker may be retried once. Three ticks, each after the marker of the
last has expired, count three attempts in its row and none in its document, and it is still
not failed. -/
theorem retried_three_times :
    let x := Uuid.one.text
    let w := (((World.abandonedGpu (some 1)).tickedAt 1400 [x]).tickedAt 1800 [x]).tickedAt 2200 [x]
    (w.db.tasks.find x).map (fun row => (row.attempt, row.maxRetries)) = some (3, 1) ∧
    ((w.redis.get (taskKey x)).bind Blob.taskDoc).map (fun d => (d.attempt, d.maxRetries)) = some (none, some 1) ∧
    w.cachedStatus x = some "queued" := by
  decide +kernel

def TickCall.found : TickCall := ⟨"i", ["t"], [], World.staleFailed⟩

def TickCall.marked : TickCall :=
  ⟨"i", ["t"], [], World.staleFailed.onRedis (·.set (taskKey "t") (.task (markFailed .staleRunning)) none)⟩

def TickCall.stale : ℕ → TickCall
  | 0 => .found
  | _ + 1 => .marked

theorem retries_bounded_iff_stale :
    (∀ N, Nat.count (fun n => (TickCall.stale n).Requeues .plain "t") N ≤ 0) ∧
      ∃ n, ((TickCall.stale n).after .plain).cachedStatus "t" = some TaskStatus.failed.value := by
  have hf : TickCall.found.world.Keyed := by
    refine World.Keyed.set ?_ (by decide +kernel) none
    intro y e hy
    cases hy
  have hm : TickCall.marked.world.Keyed := hf.set (by decide +kernel) none
  refine (retries_bounded_iff .plain "t" .staleRunning TickCall.stale ⟨?_, rfl, by decide, ?_, ?_⟩).mpr (by decide +kernel)
  · intro n
    cases n with
    | zero => exact hf
    | succ n => exact hm
  · intro n
    cases n with
    | zero => decide +kernel
    | succ n =>
      change TickCall.marked.world.redis.get _ = (TickCall.marked.after .plain).redis.get _
      decide +kernel
  · intro n hs
    cases n with
    | zero => exact ⟨0, le_refl 0, by decide +kernel, by decide +kernel⟩
    | succ n =>
      have hfa : TickCall.marked.world.cachedStatus "t" = some TaskStatus.failed.value := by decide +kernel
      exact absurd hfa hs

end AsyncScheduler
