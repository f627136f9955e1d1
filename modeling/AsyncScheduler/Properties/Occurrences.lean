import AsyncScheduler.Properties.CronLeadership

/-!
# Occurrences of a schedule

The idempotency key of a fired schedule names the minute of the firing, not the occurrence that is
due.
-/

namespace AsyncScheduler
open List

def rounds (cs : Nat → CronScheduler) (w : ControlWorld) (calls : List Nat) :
    Sys ControlCommand Fault ControlWorld PyErr :=
  ⟨w, calls.map fun n => (cs n).round, []⟩

def ReadsWithin (T : Set ℚ) (trace : List ControlStep) : Prop :=
  ∀ t ∈ trace, t.cmd = .clock → t.pre.redis.clock ∈ T

def tasksOf (w : ControlWorld) (tenant scheduleId : Json) (v : ℚ) : List (CronTask × Dict) :=
  w.tasks.filter fun e => e.2.tenantId = tenant ∧ e.2.scheduleId = scheduleId ∧ e.2.get "next_fire_at" = some (.time v)

/-- Whoever leads and wherever it stops: no occurrence at `v` has two tasks. -/
def FiresOnce (cs : Nat → CronScheduler) (T : Set ℚ) (v : ℚ) : Prop :=
  ∀ w calls ms, w.tasks = [] → ReadsWithin T (controlSystem.run (rounds cs w calls) ms).trace →
    ∀ tenant scheduleId,
      (tasksOf (controlSystem.run (rounds cs w calls) ms).world tenant scheduleId v).length ≤ 1

/-- What a round knows: the instant it reads. It creates tasks for schedules that were due then. -/
def firing (l : Option ℚ) (t : ControlStep) : Option (Option ℚ) :=
  match t.cmd with
  | .clock => some (some t.pre.redis.clock)
  | .createTask task d =>
    match l with
    | none => none
    | some now => if task = cronTask d now ∧ d.due now = true then some l else none
  | _ => some l

section
variable {A : ControlStep → Prop}

theorem firing_eq_self {l : Option ℚ} {t : ControlStep} (hc : t.cmd ≠ .clock)
    (hcr : ∀ task d, t.cmd ≠ .createTask task d) : firing l t = some l := by
  unfold firing
  split
  · next h => exact absurd h hc
  · next h => exact absurd h (hcr _ _)
  · rfl

theorem follows_fireOne (cs : CronScheduler) {d : Dict} {now : ℚ} (hd : d.due now = true) :
    Follows A firing (fun l _ => l = some now) (cs.fireOne d now) (some now) := by
  have hcr : Follows A firing (fun l _ => l = some now) (cs.createTask d now) (some now) := by
    unfold CronScheduler.createTask
    split
    · rfl
    · exact follows_awaiting fun i w _ => ⟨some now, by simp [firing, hd], rfl⟩
  have hg : Follows A firing (fun l _ => l = some now)
      (exceptException ((cs.createTask d now).bind fun _ => pure true) fun _ => pure false) (some now) := by
    refine follows_exceptException (Q := fun l _ => l = some now) (hcr.bind (fun _ _ h => h) fun _ _ h => h)
      (fun _ _ h => h) (fun _ _ _ h => h) fun _ _ _ h => h
  refine hg.bind ?_ fun _ _ h => h
  rintro l created rfl
  split
  · refine (Follows.of_issues (I := fun _ => True) (fun _ _ => trivial) (fun t _ hc => ?_) (cs.issues_advance d now)).mono
      fun l r h => h.1
    refine firing_eq_self (fun h => ?_) fun task d h => ?_ <;>
    · rw [h] at hc
      exact hc
  · rfl

theorem follows_forEach_fireOne (cs : CronScheduler) {now : ℚ} (due : List Dict) (hd : ∀ d ∈ due, d.due now = true) :
    Follows A firing (fun l _ => l = some now) (Prog.forEach (cs.fireOne · now) due) (some now) := by
  induction due with
  | nil => rfl
  | cons d due ih =>
    refine (follows_fireOne cs (hd d mem_cons_self)).bind ?_ fun _ _ h => h
    rintro l _ rfl
    exact ih fun d' hd' => hd d' (mem_cons_of_mem _ hd')

theorem follows_round (cs : CronScheduler) : Follows A firing (fun _ _ => True) cs.round none := by
  refine Follows.bind (Q := fun l _ => l = none) ?_ ?_ fun _ _ _ => trivial
  · refine (Follows.of_issues (I := fun _ => True) (fun _ _ => trivial) (fun t _ hc => ?_) cs.issues_tryBecomeLeader).mono
      fun l r h => h.1
    refine firing_eq_self (fun h => ?_) fun task d h => ?_ <;>
    · rw [h] at hc
      exact hc
  rintro l leader rfl
  split
  · intro i w _
    refine ⟨_, rfl, ?_⟩
    have hl := Follows.of_issues (A := A) (δ := firing) (I := fun _ => True) (l := some w.redis.clock)
      (fun _ _ => trivial) (fun t _ hc => firing_eq_self (by rw [hc]; simp) (by rw [hc]; simp))
      (cs.schedules.issues_listDue w.redis.clock)
    refine hl.bind ?_ fun _ _ _ => trivial
    rintro l due ⟨rfl, hd⟩
    exact (follows_forEach_fireOne cs due hd).mono fun _ _ _ => trivial
  · trivial

end

section
variable {cs : Nat → CronScheduler} {T : Set ℚ}

/-- The tasks are those of due schedules, fired at instants of `T`, one for each tenant and key. -/
structure Created (T : Set ℚ) (st : Nat → Option ℚ) (w : ControlWorld) : Prop where
  within : ∀ j now, st j = some now → now ∈ T
  fired : ∀ e ∈ w.tasks, ∃ now ∈ T, e.1 = cronTask e.2 now ∧ e.2.due now = true
  once : w.tasks.Pairwise fun a b => ¬ (a.1.tenantId = b.1.tenantId ∧ a.1.idempotencyKey = b.1.idempotencyKey)

theorem tasks_apply {c : ControlCommand} (hc : ∀ task d, c ≠ .createTask task d) (i : Fault) (w : ControlWorld) :
    (c.apply i w).tasks = w.tasks := by
  have he : (w.exec c).tasks = w.tasks := by
    cases c with
    | createTask task d => exact absurd rfl (hc task d)
    | set k v nx ex =>
      simp only [ControlWorld.exec]
      split <;> rfl
    | advance t =>
      simp only [ControlWorld.exec]
      split <;> rfl
    | _ => rfl
  unfold ControlCommand.apply
  split
  · exact he
  · exact he
  · exact he
  · exact he
  · split
    · exact he
    · rfl

/-- Each step of a round keeps the tasks dated and without repetition. -/
theorem created_step {st : Nat → Option ℚ} {w : ControlWorld} {j : Nat} {c : ControlCommand} {i : Fault} {l : Option ℚ}
    (h : Created T st w) (hT : c = .clock → w.redis.clock ∈ T) (hl : firing (st j) ⟨c, i, w⟩ = some l) :
    Created T (Function.update st j l) (c.apply i w) := by
  have hw : ∀ k now, Function.update st j l k = some now → now ∈ T := by
    intro k now hk
    by_cases hkj : k = j
    · subst hkj
      rw [Function.update_self] at hk
      subst hk
      unfold firing at hl
      split at hl
      · next hcl =>
        cases hl
        exact hT hcl
      · split at hl
        · cases hl
        · next now' hst =>
          split at hl
          · exact h.within k now (Option.some.inj hl)
          · cases hl
      · exact h.within k now (Option.some.inj hl)
    · rw [Function.update_of_ne hkj] at hk
      exact h.within k now hk
  by_cases hcr : ∃ task d, c = .createTask task d
  · obtain ⟨task, d, rfl⟩ := hcr
    obtain ⟨now, hst, rfl, hd⟩ : ∃ now, st j = some now ∧ task = cronTask d now ∧ d.due now = true := by
      simp only [firing] at hl
      split at hl
      · cases hl
      · next now hst =>
        split at hl
        · next hf => exact ⟨now, hst, hf.1, hf.2⟩
        · cases hl
    have hm : ((ControlCommand.createTask (cronTask d now) d).apply i w).tasks = w.tasks ∨
        ((ControlCommand.createTask (cronTask d now) d).apply i w).tasks = w.tasks ++ [(cronTask d now, d)] ∧
          ∀ e ∈ w.tasks, ¬ (e.1.tenantId = (cronTask d now).tenantId ∧
            e.1.idempotencyKey = (cronTask d now).idempotencyKey) := by
      change (if i.applied then w.exec _ else w).tasks = _ ∨ (if i.applied then w.exec _ else w).tasks = _ ∧ _
      split
      · simp only [ControlWorld.exec]
        split
        · exact .inl rfl
        · next hn =>
          refine .inr ⟨rfl, fun e he hs => hn ?_⟩
          exact any_eq_true.mpr ⟨e, he, by simpa using hs⟩
      · exact .inl rfl
    rcases hm with hs | ⟨ha, hn⟩
    · exact ⟨hw, hs ▸ h.fired, hs ▸ h.once⟩
    · refine ⟨hw, ?_, ?_⟩
      · rw [ha]
        intro e he
        rcases mem_append.mp he with hold | hla
        · exact h.fired e hold
        · obtain rfl := mem_singleton.mp hla
          exact ⟨now, h.within j now hst, rfl, hd⟩
      · rw [ha, pairwise_append]
        refine ⟨h.once, pairwise_singleton _ _, fun e he e' he' => ?_⟩
        obtain rfl := mem_singleton.mp he'
        exact hn e he
  · have hs := tasks_apply (fun task d hc => hcr ⟨task, d, hc⟩) i w
    exact ⟨hw, hs ▸ h.fired, hs ▸ h.once⟩

/-- The tasks of a run were due at instants its rounds have read, and none is repeated. -/
theorem created_run {w : ControlWorld} (hn : w.tasks = []) (calls : List Nat) (ms : List ControlMove)
    (hr : ReadsWithin T (controlSystem.run (rounds cs w calls) ms).trace) :
    ∃ st, Created T st (controlSystem.run (rounds cs w calls) ms).world := by
  let A : ControlStep → Prop := fun t => t.cmd = .clock → t.pre.redis.clock ∈ T
  have hst : System.Conforms A firing (fun _ _ => True) (fun st _ w => Created T st w) none (fun _ => none)
      (rounds cs w calls) := by
    refine ⟨⟨fun j now h => (nomatch h), ?_, ?_⟩, fun j p hp => ?_, fun j _ => rfl⟩
    · rw [show (rounds cs w calls).world.tasks = [] from hn]
      simp
    · rw [show (rounds cs w calls).world.tasks = [] from hn]
      exact .nil
    · rw [rounds, List.getElem?_map] at hp
      obtain ⟨n, -, rfl⟩ := Option.map_eq_some_iff.mp hp
      exact follows_round (cs n)
  obtain ⟨st, hc, -⟩ := System.Conforms.run (H := A) (S := controlSystem) (fun _ _ _ _ _ _ h => h)
    (fun _ _ _ _ _ _ _ hG hA hl => created_step hG hA hl)
    (fun st _ w t i hG _ => by
      have hs := tasks_apply (c := .advance t) (by simp) i w
      exact ⟨hG.within, hs ▸ hG.fired, hs ▸ hG.once⟩) ms hst nofun hr
  exact ⟨st, hc.holds⟩

theorem length_le_one_of_pairwise {α : Type} {R : α → α → Prop} {l : List α} (hl : l.Pairwise R)
    (hn : ∀ a ∈ l, ∀ b ∈ l, ¬ R a b) : l.length ≤ 1 := by
  match l with
  | [] => exact Nat.zero_le _
  | [a] => exact le_rfl
  | a :: b :: l => exact absurd ((pairwise_cons.mp hl).1 b mem_cons_self) (hn a (by simp) b (by simp))

end

/-- One schedule, due at `v`. -/
def dueRecord (template : Json) (v : ℚ) : Dict :=
  [("schedule_id", .str "s"), ("tenant_id", .str "t"), ("cron_expr", .str "* * * * *"), ("task_template", template),
    ("next_fire_at", .time v)]

def stock (template : Json) (v : ℚ) (k : String) : Option (Value Stored × Option ℚ) :=
  if k = "schedules:tenants" then some (.set ["t"], none)
  else if k = "schedules:index:t" then some (.set ["s"], none)
  else if k = "schedules:t:s" then some (.string (.dict (dueRecord template v)), none)
  else none

end AsyncScheduler
