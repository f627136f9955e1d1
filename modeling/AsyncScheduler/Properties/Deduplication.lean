import AsyncScheduler.Platform.ReconcilerScope

/-!
# Deduplication of stuck recovery

A task is selected when its `SET NX EX` goes through: the lists that the loop returns hold one entry
for each such step and no other.
-/

namespace AsyncScheduler
open List

variable {x : String} {cmd : Command} {w : World} {t : Step}

structure StuckCall where
  rc : TaskReconciler
  batch : List TaskDoc

/-- What the rest of the system does meanwhile: time passes, tasks run, and nothing else
writes a marker. -/
def Bystander : Type := { cmd : Command // ∀ x, requeueDedupKey x ∉ cmd.stringKeys }

def stuckSystem : System Command Fault World PyErr StuckCall Bystander where
  apply := Command.apply
  program call := call.rc.phase2StuckRecovery call.batch
  ambient e := e.val

namespace Step

/-- A `SET NX` that found no key and whose reply arrived. -/
def wins (t : Step) : Bool :=
  match t.cmd with
  | .keys [(k, .setNx _ _)] => t.input = .ok ∧ t.pre.redis.existsKey k = false
  | _ => false

def selects (x : String) (t : Step) : Prop :=
  t.cmd = .keys [(requeueDedupKey x, .setNx (.text "1") 300)] ∧ t.wins = true

instance (x : String) (t : Step) : Decidable (t.selects x) := inferInstanceAs (Decidable (_ ∧ _))

theorem selects_absent {x : String} {t : Step} (h : t.selects x) :
    t.input = .ok ∧ t.pre.redis.existsKey (requeueDedupKey x) = false := by
  obtain ⟨hc, hw⟩ := h
  unfold wins at hw
  rw [hc] at hw
  simpa using hw

end Step

theorem requeueDedupKey_eq {y : String} (h : requeueDedupKey x = requeueDedupKey y) : x = y :=
  append_right_inj h

def Command.KeepsMarkers (cmd : Command) : Prop :=
  (∀ x, requeueDedupKey x ∉ cmd.stringKeys) ∨
    ∃ x, cmd = .keys [(requeueDedupKey x, .setNx (.text "1") 300)]

/-- A task selected at `instant` is marked until 300 seconds later. -/
def Marked (x : String) (instant : ℚ) (w : World) : Prop :=
  instant + 300 ≤ w.redis.clock ∨
    ∃ v deadline, w.redis.strings (requeueDedupKey x) = some (v, some deadline) ∧ instant + 300 ≤ deadline

variable {instant : ℚ}

theorem marked_advance {t : ℚ} (ht : w.redis.clock < t) {w' : World} (hw' : w'.redis = w.redis.advance t)
    (h : Marked x instant w) : Marked x instant w' := by
  unfold Marked
  rw [hw']
  rcases h with h | ⟨v, deadline, hm, hd⟩
  · exact .inl (h.trans ht.le)
  · by_cases hl : t < deadline
    · refine .inr ⟨v, deadline, ?_, hd⟩
      simp [Redis.advance, hm, Redis.live, hl]
    · exact .inl (hd.trans (not_lt.mp hl))

theorem marked_setNx (y : String) (h : Marked x instant w) :
    Marked x instant (w.exec (.keys [(requeueDedupKey y, .setNx (.text "1") 300)])) := by
  have hc : (w.exec (.keys [(requeueDedupKey y, .setNx (.text "1") 300)])).redis.clock =
      w.redis.clock := Redis.clock_of_sorted (sorted_runKeys _ _)
  rcases h with h | ⟨v, deadline, hm, hd⟩
  · exact .inl (by rwa [hc])
  · refine .inr ⟨v, deadline, ?_, hd⟩
    change ((w.redis.setNx (requeueDedupKey y) (.text "1") 300).2).strings (requeueDedupKey x) = _
    by_cases hxy : requeueDedupKey x = requeueDedupKey y
    · have he : w.redis.existsKey (requeueDedupKey y) = true := by
        rw [← hxy, Redis.existsKey, hm]
        rfl
      rw [Redis.setNx, if_pos he]
      exact hm
    · rw [Redis.strings_setNx_of_ne _ _ _ _ _ hxy]
      exact hm

theorem marked_exec {cmd : Command} (hcm : cmd.KeepsMarkers) (h : Marked x instant w) :
    Marked x instant (w.exec cmd) := by
  rcases hcm with hk | ⟨y, rfl⟩
  · rcases clock_exec w cmd with hc | ⟨t, rfl, ht, ha⟩
    · unfold Marked
      rwa [hc, strings_exec_of_clock (hk x) hc]
    · exact marked_advance ht ha h
  · exact marked_setNx y h

theorem marked_of_selects {t : Step} (h : t.selects x) : Marked x t.pre.redis.clock t.post := by
  obtain ⟨hi, ha⟩ := Step.selects_absent h
  have hp : t.post = t.pre.exec t.cmd := by
    simp [Step.post_eq, Step.applied, hi, Fault.applied]
  refine .inr ⟨.text "1", t.pre.redis.clock + 300, ?_, le_refl _⟩
  rw [hp, h.1]
  change ((t.pre.redis.setNx (requeueDedupKey x) (.text "1") 300).2).strings (requeueDedupKey x) = _
  rw [Redis.setNx, ha]
  simp [Redis.strings_set]

theorem keepsMarkers_silent (h : cmd.stringKeys = []) : cmd.KeepsMarkers :=
  .inl fun x hx => absurd hx (by simp [h])

theorem keepsMarkers_key {k : String} (hk : ∀ x, requeueDedupKey x ≠ k) (op : KeyOp) :
    (Command.keys [(k, op)]).KeepsMarkers :=
  .inl fun x hx => hk x (mem_singleton.mp hx)

theorem requeueDedupKey_ne_taskKey (x y : String) : requeueDedupKey x ≠ taskKey y :=
  append_ne 0 (by decide) (by decide) (by decide) x y

theorem keepsMarkers_tick :
    TickAllowed (fun _ => True) Command.KeepsMarkers (fun _ => True) (fun _ => True) where
  read := keepsMarkers_silent rfl
  breaker op := by
    refine .inl fun x => ?_
    have hp : ∀ s, requeueDedupKey x ≠ breakerPrefix ++ s :=
      append_ne 0 (by decide) (by decide) (by decide) x
    cases op with
    | _ => exact not_mem_breakerKeys hp _
  register _ := keepsMarkers_silent rfl
  rows _ _ _ _ := trivial
  docs _ _ _ _ _ := trivial
  leader op _ := keepsMarkers_key
    (fun x => append_ne (q := reconcileLeaderKey) 2 (by decide) (by decide) (by decide) x "") op
  cache row _ := keepsMarkers_key (fun x => requeueDedupKey_ne_taskKey x _) _
  restore _ _ _ _ := keepsMarkers_silent rfl
  repair _ := keepsMarkers_silent rfl
  transaction id op _ := keepsMarkers_key (fun x => append_ne 0 (by decide) (by decide) (by decide) x id) op
  dedup x := .inr ⟨x, rfl⟩
  bump _ := keepsMarkers_silent rfl
  requeue _ _ _ _ _ _ _ := keepsMarkers_silent rfl
  fail ops ho := by
    refine .inl fun x hx => ?_
    obtain ⟨op, hop, hk⟩ := mem_map.mp hx
    obtain ⟨id, t, _, rfl⟩ := ho op hop
    exact requeueDedupKey_ne_taskKey x id hk.symm
  callback id _ _ :=
    .inl fun x hx =>
      append_ne (p := "requeue_dedup:") (q := "callback:retry:payload:") 0 (by decide) (by decide)
        (by decide) x id (mem_singleton.mp hx)

/-- Every selection of the past still keeps its task away from the reconcilers. -/
def Spaced (x : String) (trace : List Step) (w : World) : Prop :=
  (∀ t ∈ trace, t.selects x → Marked x t.pre.redis.clock w) ∧
    trace.Pairwise fun later earlier =>
      later.selects x → earlier.selects x → earlier.pre.redis.clock + 300 ≤ later.pre.redis.clock

theorem not_live_of_absent {instant : ℚ} (hm : Marked x instant w)
    (ha : w.redis.existsKey (requeueDedupKey x) = false) : instant + 300 ≤ w.redis.clock := by
  rcases hm with h | ⟨v, deadline, hma, _⟩
  · exact h
  · rw [Redis.existsKey, hma] at ha
    cases ha

/-- Markers last their 300 seconds, so selections keep apart. -/
theorem spaced_step {trace : List Step} (i : Fault)
    (hc : cmd.KeepsMarkers) (h : Spaced x trace w) : Spaced x (⟨cmd, i, w⟩ :: trace) (cmd.apply i w) := by
  obtain ⟨hm, hp⟩ := h
  have hk (instant : ℚ) (h : Marked x instant w) : Marked x instant (cmd.apply i w) := by
    unfold Command.apply
    split
    · exact marked_exec hc h
    · exact h
  refine ⟨fun t ht hs => ?_, pairwise_cons.mpr ⟨?_, hp⟩⟩
  · rcases mem_cons.mp ht with rfl | ht
    · exact marked_of_selects hs
    · exact hk _ (hm t ht hs)
  · intro t ht hl he
    exact not_live_of_absent (hm t ht he) (Step.selects_absent hl).2

theorem spaced_run (w : World) (ms : List (Move StuckCall Bystander Fault)) (x : String) :
    Spaced x (stuckSystem.run (Sys.init w) ms).trace (stuckSystem.run (Sys.init w) ms).world := by
  refine System.run_invariant (S := stuckSystem) (I := fun _ => True) (C := Command.KeepsMarkers)
    (J := Spaced x) (fun _ _ _ => trivial) (fun tr w c i hc h => spaced_step i hc h) (fun call => ?_)
    (fun e => .inl e.property) (s := Sys.init w) (fun _ hp => absurd hp not_mem_nil) ?_ ms
  · exact TaskReconciler.issues_phase2StuckRecovery (keepsMarkers_tick.scope call.rc) fun _ _ => trivial
  · exact ⟨fun t ht => absurd ht not_mem_nil, List.Pairwise.nil⟩

/-- Not a `SET NX` of a single key. -/
def Command.NotSetNx (cmd : Command) : Prop :=
  ∀ k v seconds, cmd ≠ .keys [(k, .setNx v seconds)]

theorem Step.not_wins (h : t.cmd.NotSetNx) : t.wins = false := by
  unfold wins
  split
  · exact absurd ‹_› (h _ _ _)
  · rfl

theorem Step.not_selects (h : t.cmd.NotSetNx) : ¬ t.selects x :=
  fun hs => h _ _ _ hs.1

namespace TaskReconciler
variable {steps : List Step} {rc : TaskReconciler} {locked : List (TaskDoc × Bool)} {q : Py Unit}
  {decision : List RequeueInfo × List String}

theorem notSetNx_recover (rc : TaskReconciler) :
    RecoverScope rc (fun _ => True) Command.NotSetNx (fun _ => True) where
  read _ _ _ h := by cases h
  breaker _ _ _ _ h := by cases h
  register _ _ _ _ h := by cases h
  docs _ _ _ _ _ := trivial
  bump _ _ _ _ _ h := by cases h
  requeue _ _ _ _ _ _ _ _ _ _ h := by cases h
  fail ops ho k v seconds h := by
    cases h
    obtain ⟨t, d, _, _, _, _, hop⟩ := ho _ mem_cons_self
    cases hop

/-- What the loop does on `locked` when `stuckCount` tasks are taken already. -/
structure Within (rc : TaskReconciler) (locked : List (TaskDoc × Bool)) (stuckCount : Nat)
    (steps : List Step) : Prop where
  capped : steps.countP Step.wins ≤ (rc.stuckMaxPerTick - stuckCount).toNat
  free : ∀ x, ∀ t ∈ steps, Step.selects x t → ∃ e ∈ locked, e.1.idText = x ∧ e.2 = false

namespace Within
variable {rc : TaskReconciler} {locked : List (TaskDoc × Bool)} {stuckCount : Nat} {steps : List Step}

theorem nil (rc : TaskReconciler) (locked : List (TaskDoc × Bool)) (stuckCount : Nat) :
    Within rc locked stuckCount [] :=
  ⟨Nat.zero_le _, fun _ _ ht => absurd ht not_mem_nil⟩

theorem skip (e : TaskDoc × Bool) (h : Within rc locked stuckCount steps) :
    Within rc (e :: locked) stuckCount steps := by
  refine ⟨h.capped, fun x t ht hs => ?_⟩
  obtain ⟨e', he', hn⟩ := h.free x t ht hs
  exact ⟨e', mem_cons_of_mem _ he', hn⟩

theorem attempt {t : TaskDoc} {head : Step}
    (hcm : head.cmd = .keys [(requeueDedupKey t.idText, .setNx (.text "1") 300)])
    (hr : ¬ rc.stuckMaxPerTick ≤ stuckCount)
    (h : Within rc locked (if head.wins then stuckCount + 1 else stuckCount) steps) :
    Within rc ((t, false) :: locked) stuckCount (head :: steps) := by
  refine ⟨?_, fun x s hs hse => ?_⟩
  · have hc := h.capped
    rw [countP_cons]
    cases hw : head.wins with
    | false =>
      simp only [hw, Bool.false_eq_true, if_false] at hc ⊢
      omega
    | true =>
      simp only [hw, if_true] at hc ⊢
      omega
  · rcases mem_cons.mp hs with rfl | hs
    · have hk : requeueDedupKey t.idText = requeueDedupKey x := by
        have hb := hcm.symm.trans hse.1
        simp only [Command.keys.injEq, List.cons.injEq, Prod.mk.injEq, and_true] at hb
        exact hb
      exact ⟨(t, false), mem_cons_self, requeueDedupKey_eq hk, rfl⟩
    · exact (h.skip (t, false)).free x s hs hse

end Within

/-- The selection takes what is left of the limit, and only tasks without a lock. -/
theorem steps_selectStuck (rc : TaskReconciler) (now : ℚ) {stuckCount : Nat}
    {requeue : List RequeueInfo} {fail : List String} {q : Py (List RequeueInfo × List String)}
    (h : Steps (rc.selectStuck now locked stuckCount requeue fail) steps q) : Within rc locked stuckCount steps := by
  induction locked generalizing stuckCount requeue fail steps with
  | nil =>
    rw [h.of_ret]
    exact Within.nil _ _ _
  | cons e rest ih =>
    obtain ⟨t, lockExists⟩ := e
    unfold selectStuck at h
    split at h
    · rw [h.of_ret]
      exact Within.nil _ _ _
    · rename_i hr
      split at h
      · exact (ih h).skip _
      · rename_i hs
        simp only [not_or, Bool.not_eq_true] at hs
        obtain ⟨_, rfl, _⟩ := hs
        rcases steps_await_bind h with rfl | ⟨i, w, tail, rfl, ht⟩
        · exact Within.nil _ _ _
        · refine Within.attempt rfl hr ?_
          rcases ht with rfl | ⟨fresh, rfl, hf, h⟩
          · exact Within.nil _ _ _
          · have hw : Step.wins
                ⟨.keys [(requeueDedupKey t.idText, .setNx (.text "1") 300)], .ok, w⟩ = fresh := by
              rw [← Except.ok.inj hf]
              simp [Step.wins]
            rw [hw]
            cases fresh with
            | false => exact ih h
            | true =>
              simp only [Bool.not_true, Bool.false_eq_true, if_false] at h
              split at h
              · exact ih h
              · exact ih h

/-- The ids in what the loop returns, those to requeue first. -/
def selectedIds (decision : List RequeueInfo × List String) : List String :=
  decision.1.map RequeueInfo.taskId ++ decision.2

/-- Each winning step adds its id once, to one of the two lists. -/
theorem counted_selectStuck {now : ℚ} {stuckCount : Nat} {requeue : List RequeueInfo} {fail : List String}
    (h : Steps (rc.selectStuck now locked stuckCount requeue fail) steps (.ret decision)) (x : String) :
    (selectedIds decision).length = (selectedIds (requeue, fail)).length + steps.countP Step.wins ∧
      (selectedIds decision).count x = (selectedIds (requeue, fail)).count x + steps.countP (Step.selects x ·) := by
  induction locked generalizing stuckCount requeue fail steps with
  | nil =>
    cases h
    exact ⟨rfl, rfl⟩
  | cons e rest ih =>
    obtain ⟨t, lockExists⟩ := e
    unfold selectStuck at h
    split at h
    · cases h
      exact ⟨rfl, rfl⟩
    split at h
    · exact ih h
    obtain ⟨fresh, first, later, hf, hl, rfl⟩ := Steps.bind_ret h
    obtain ⟨w, rfl, hr⟩ := steps_await_ret hf
    have hw : Step.wins ⟨.keys [(requeueDedupKey t.idText, .setNx (.text "1") 300)], .ok, w⟩ = fresh := by
      rw [← Except.ok.inj hr]
      simp [Step.wins]
    have hx : decide (Step.selects x ⟨.keys [(requeueDedupKey t.idText, .setNx (.text "1") 300)], .ok, w⟩) =
        decide (t.idText = x ∧ fresh = true) := by
      rw [decide_eq_decide, Step.selects, hw]
      refine and_congr_left fun _ => ⟨fun hc => requeueDedupKey_eq ?_, fun hc => by rw [hc]⟩
      simpa using hc
    rw [singleton_append, countP_cons, countP_cons, hw, hx]
    cases fresh with
    | false => simpa using ih hl
    | true =>
      simp only [Bool.not_true, Bool.false_eq_true, if_false] at hl
      split at hl
      · have hi := ih hl
        simp only [selectedIds, requeueInfo, map_append, map_singleton, length_append, length_map, length_singleton,
          count_append, count_singleton, beq_iff_eq, decide_eq_true_eq, and_true, if_true] at hi ⊢
        omega
      · have hi := ih hl
        simp only [selectedIds, length_append, length_map, length_singleton, count_append, count_singleton, beq_iff_eq,
          decide_eq_true_eq, and_true, if_true] at hi ⊢
        omega

theorem steps_recover (hs : Selected rc (fun _ => True) (fun _ => True) decision)
    (h : Steps (rc.recover decision.1 decision.2) steps q) : ∀ t ∈ steps, t.cmd.NotSetNx :=
  h.of_issues (issues_recover (notSetNx_recover rc) hs)

theorem selected_of_steps {now : ℚ}
    (hl : ∀ e ∈ locked, isStuckCandidate e.1 = true ∧
      ∃ w : World, w.redis.existsKey (lockKey e.1.idText) = e.2) (hn : ∃ w : World, w.redis.clock = now)
    (h : Steps (rc.selectStuck now locked 0 [] []) steps (.ret decision)) :
    Selected rc (fun _ => True) (fun _ => True) decision := by
  obtain ⟨w, hw⟩ := hn
  refine h.returned (issues_selectStuck (keepsMarkers_tick.scope rc) ⟨w, trivial, hw⟩ 0 ?_
    ⟨fun _ hi => absurd hi not_mem_nil, fun _ hi => absurd hi not_mem_nil⟩)
  intro e he
  obtain ⟨hc, w', hw'⟩ := hl e he
  exact ⟨trivial, hc, w', trivial, hw'⟩

/-- What one call may select, whatever happens between its commands. Its second command checks
the locks of the whole batch. -/
structure Sparing (rc : TaskReconciler) (steps : List Step) : Prop where
  capped : steps.countP Step.wins ≤ rc.stuckMaxPerTick.toNat
  unlocked : ∀ x, ∀ t ∈ steps, Step.selects x t →
    ∃ check, steps[1]? = some check ∧ check.cmd = .read ∧ check.pre.redis.existsKey (lockKey x) = false

theorem sparing_of_not_wins (h : ∀ t ∈ steps, t.wins = false) : Sparing rc steps := by
  refine ⟨?_, fun x t ht hs => ?_⟩
  · have hz : steps.countP Step.wins = 0 := countP_eq_zero.mpr fun t ht => by simp [h t ht]
    rw [hz]
    exact Nat.zero_le _
  · exact absurd hs.2 (by simp [h t ht])

/-- Phase 2 takes no more than its limit, and only tasks whose lock was absent at the check. -/
theorem sparing_steps {batch : List TaskDoc}
    (h : Steps (rc.phase2StuckRecovery batch) steps q) : Sparing rc steps := by
  rw [phase2_eq] at h
  split at h
  · rw [h.of_ret]
    exact sparing_of_not_wins fun _ ht => absurd ht not_mem_nil
  rcases steps_time_bind h with rfl | ⟨i, wNow, steps, rfl, hch⟩
  · exact sparing_of_not_wins fun _ ht => absurd ht not_mem_nil
  unfold checkLocks query at hch
  rcases steps_await_bind hch with rfl | ⟨j, wLock, steps, rfl, hrep⟩
  · refine sparing_of_not_wins fun t ht => ?_
    rw [mem_singleton.mp ht]
    rfl
  rcases hrep with rfl | ⟨locked, rfl, hl, hlo⟩
  · refine sparing_of_not_wins fun t ht => ?_
    simp only [mem_cons, not_mem_nil, or_false] at ht
    rcases ht with rfl | rfl <;> rfl
  have hl := (Except.ok.inj hl).symm
  -- the two reads before the loop select nothing, and what follows it neither
  obtain ⟨select, rest, rfl, hw, hr⟩ : ∃ select rest, steps = select ++ rest ∧
      Within rc locked 0 select ∧ ∀ t ∈ rest, t.cmd.NotSetNx := by
    rcases hlo.bind with ⟨q', hs⟩ | ⟨decision, select, rest, hs, hre, rfl⟩
    · exact ⟨steps, [], (append_nil _).symm, steps_selectStuck rc _ hs,
        fun _ ht => absurd ht not_mem_nil⟩
    · have hsel : Selected rc (fun _ => True) (fun _ => True) decision := by
        refine selected_of_steps ?_ ⟨wNow, rfl⟩ hs
        rw [hl]
        intro e he
        obtain ⟨t, ht, rfl⟩ := mem_map.mp he
        exact ⟨(mem_filter.mp ht).2, wLock, rfl⟩
      exact ⟨select, rest, rfl, steps_selectStuck rc _ hs, steps_recover hsel hre⟩
  refine ⟨?_, fun x t ht hse => ?_⟩
  · have hz : rest.countP Step.wins = 0 :=
      countP_eq_zero.mpr fun t ht => by simp [Step.not_wins (hr t ht)]
    have hc := hw.capped
    simp only [Nat.cast_zero, sub_zero] at hc
    rw [countP_cons, countP_cons, countP_append, hz]
    simpa [Step.wins] using hc
  · have hs : t ∈ select := by
      simp only [mem_cons, mem_append] at ht
      rcases ht with rfl | rfl | ht | ht
      · cases hse.1
      · cases hse.1
      · exact ht
      · exact absurd hse (Step.not_selects (hr t ht))
    obtain ⟨e, he, rfl, hf⟩ := hw.free x t hs hse
    refine ⟨_, rfl, rfl, ?_⟩
    rw [hl] at he
    obtain ⟨doc, _, rfl⟩ := mem_map.mp he
    exact hf

end TaskReconciler

/-- However many reconcilers run phase 2 at once, and whatever else happens: two selections of
one task are 300 seconds apart, a call selects no more than its cap, and never a task whose
lock it found. What the loop of a call returns to be requeued or failed are the tasks it has
selected, each as often as it was. -/
theorem stuck_selections_spaced (w : World) (ms : List (Move StuckCall Bystander Fault)) :
    (∀ x, (stuckSystem.run (Sys.init w) ms).trace.Pairwise fun later earlier =>
      Step.selects x later → Step.selects x earlier →
        earlier.pre.redis.clock + 300 ≤ later.pre.redis.clock) ∧
    ∀ (rc : TaskReconciler) (batch : List TaskDoc) (steps : List Step) (q : Py Unit),
      Steps (rc.phase2StuckRecovery batch) steps q →
        steps.countP Step.wins ≤ rc.stuckMaxPerTick.toNat ∧
        (∀ x, ∀ t ∈ steps, Step.selects x t → ∃ check, steps[1]? = some check ∧ check.cmd = .read ∧
          check.pre.redis.existsKey (lockKey x) = false) ∧
        ∀ now locked select decision, Steps (rc.selectStuck now locked 0 [] []) select (.ret decision) →
          (TaskReconciler.selectedIds decision).length = select.countP Step.wins ∧
          (TaskReconciler.selectedIds decision).length ≤ rc.stuckMaxPerTick.toNat ∧
          ∀ x, (TaskReconciler.selectedIds decision).count x = select.countP (Step.selects x ·) := by
  refine ⟨fun x => (spaced_run w ms x).2, fun rc batch steps q hst => ?_⟩
  have hs := TaskReconciler.sparing_steps hst
  refine ⟨hs.capped, hs.unlocked, fun now locked select decision hse => ?_⟩
  have hl : (TaskReconciler.selectedIds decision).length = select.countP Step.wins := by
    simpa [TaskReconciler.selectedIds] using (TaskReconciler.counted_selectStuck hse "").1
  refine ⟨hl, ?_, fun x => ?_⟩
  · simpa [hl] using (TaskReconciler.steps_selectStuck rc now hse).capped
  · simpa [TaskReconciler.selectedIds] using (TaskReconciler.counted_selectStuck hse x).2

def TaskDoc.stuckGpu : TaskDoc := { taskId := "t1", status := "queued", capability := "gpu" }

def stuckTwice : List (Move StuckCall Bystander Fault) :=
  let wait : Move StuckCall Bystander Fault := .env ⟨.advance 300, fun _ h => nomatch h⟩ .ok
  [.start ⟨{ instanceId := "r1" }, [.stuckGpu]⟩, .start ⟨{ instanceId := "r2" }, [.stuckGpu]⟩] ++
    (List.range 4).flatMap (fun _ => [.step 0 .ok, .step 1 .ok]) ++
    wait :: .start ⟨{ instanceId := "r3" }, [.stuckGpu]⟩ :: List.replicate 3 (.step 2 .ok)

/-- Three calls meet the same task twice, the third after 300 seconds; and a loop that meets it twice
returns it once. -/
theorem stuck_selections_spaced_twice :
    (((stuckSystem.run (Sys.init World.empty) stuckTwice).trace.filter Step.wins).map
      (·.pre.redis.clock)) = [300, 0] ∧
    (∀ x, (stuckSystem.run (Sys.init World.empty) stuckTwice).trace.Pairwise fun later earlier =>
      Step.selects x later → Step.selects x earlier →
        earlier.pre.redis.clock + 300 ≤ later.pre.redis.clock) ∧
    (∃ steps q, Steps (TaskReconciler.phase2StuckRecovery { instanceId := "r1" } [.stuckGpu]) steps q ∧
      steps.countP Step.wins = 1 ∧
      ∀ x, ∀ t ∈ steps, Step.selects x t → ∃ check, steps[1]? = some check ∧ check.cmd = .read ∧
        check.pre.redis.existsKey (lockKey x) = false) ∧
    ∃ select, Steps (TaskReconciler.selectStuck { instanceId := "r1" } 0 [(.stuckGpu, false), (.stuckGpu, false)] 0 [] [])
      select (.ret ([], ["t1"])) ∧ select.length = 2 ∧ select.countP (Step.selects "t1" ·) = 1 := by
  obtain ⟨hsp, hc⟩ := stuck_selections_spaced World.empty stuckTwice
  -- the call reads the clock and the locks and then wins the marker
  obtain ⟨steps, q, hs, hw⟩ : ∃ steps q,
      Steps (TaskReconciler.phase2StuckRecovery { instanceId := "r1" } [.stuckGpu]) steps q ∧
        steps.countP Step.wins = 1 :=
    ⟨_, _, .cons Fault.ok World.empty (.cons Fault.ok World.empty (.cons Fault.ok World.empty (.refl _))),
      by decide +kernel⟩
  have hl : Steps (TaskReconciler.selectStuck { instanceId := "r1" } 0 [(.stuckGpu, false), (.stuckGpu, false)] 0 [] [])
      _ (.ret ([], ["t1"])) := .cons Fault.ok World.empty
    (.cons Fault.ok (World.empty.exec (.keys [(requeueDedupKey "t1", .setNx (.text "1") 300)])) (.refl _))
  obtain ⟨-, hu, hd⟩ := hc _ _ _ _ hs
  exact ⟨by decide +kernel, hsp, ⟨steps, q, hs, hw, hu⟩, _, hl, rfl, ((hd _ _ _ _ hl).2.2 "t1").symm⟩

end AsyncScheduler
