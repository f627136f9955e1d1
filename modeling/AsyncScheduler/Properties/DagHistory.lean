import AsyncScheduler.Platform.DagTurns
import AsyncScheduler.Properties.Waves

/-!
# Histories of a run

What holds at every moment of a run of `execute`: its tasks are the scheduled steps, a property of a
step that its own turns and those of the others keep holds throughout, and the trace tells the end
of a step exactly when it has ended.
-/

namespace AsyncScheduler
open ForkJoin DagEngine List

section

open DagEngine (names dependencies stepNamed topoSort)

/-- `execute` has come to a state, with signals that are allowed. -/
def DagSetup.Reaches (setup : DagSetup) (A : StepTask → Signal → Prop) (dag : DagDefinition)
    (initial : JsonObj) (r : DagRun) : Prop :=
  ∃ start, setup.execute dag initial = .ok start ∧ (setup.engine dag.steps).Reach A start r

/-- `execute` has come to a state, and from there to another. -/
def DagSetup.OnTheWay (setup : DagSetup) (A : StepTask → Signal → Prop) (dag : DagDefinition) (initial : JsonObj)
    (s r : DagRun) : Prop :=
  setup.Reaches A dag initial s ∧ (setup.engine dag.steps).Reach A s r

/-- `execute` after some moves. -/
def DagSetup.after (setup : DagSetup) (dag : DagDefinition) (initial : JsonObj)
    (moves : List (ForkJoin.Move Signal)) : Option DagRun :=
  match setup.execute dag initial with
  | .ok start => (setup.engine dag.steps).run start moves
  | .error _ => none

theorem reaches_of_after {setup : DagSetup} {dag : DagDefinition} {initial : JsonObj}
    {moves : List (ForkJoin.Move Signal)} {r : DagRun} {A : StepTask → Signal → Prop}
    (h : setup.after dag initial moves = some r) (ha : ∀ j i t, .turn j i ∈ moves → A t i) :
    setup.Reaches A dag initial r := by
  unfold DagSetup.after at h
  cases hs : setup.execute dag initial with
  | error e =>
    rw [hs] at h
    cases h
  | ok start =>
    rw [hs] at h
    exact ⟨start, hs, reach_of_run h ha⟩

section
variable {setup : DagSetup} {A : StepTask → Signal → Prop} {dag : DagDefinition}
  {initial : JsonObj} {r : DagRun} {steps : List DagStep}
variable {t : StepTask} {wave : List String} {P : StepTask → DagShared → Prop} {runner : String}

theorem execute_eq_ok {start : DagRun} (h : setup.execute dag initial = .ok start) :
    ∃ ctx, dag.newContext initial = .ok ctx ∧ start =
      (setup.engine dag.steps).start { ctx } (setup.limit dag.maxConcurrent).toNat (topoSort dag.steps) := by
  unfold DagSetup.execute at h
  cases hc : dag.newContext initial with
  | error e =>
    rw [hc] at h
    cases h
  | ok ctx =>
    rw [hc] at h
    refine ⟨ctx, rfl, ?_⟩
    change (if _ then _ else _) = _ at h
    split at h
    · cases h
    · exact (Except.ok.inj h).symm

theorem newContext_eq_ok {ctx : DagContext} (h : dag.newContext initial = .ok ctx) :
    ctx.inputData = initial ∧ ctx.context = initial ∧ ctx.stepResults = [] ∧ ctx.completedSteps = [] ∧
      ctx.status = .running := by
  unfold DagDefinition.newContext at h
  dsimp only at h
  split at h
  · obtain rfl := Except.ok.inj h
    split <;> exact ⟨rfl, rfl, rfl, rfl, rfl⟩
  · split at h
    · cases h
    · obtain rfl := Except.ok.inj h
      exact ⟨rfl, rfl, rfl, rfl, rfl⟩
  · obtain rfl := Except.ok.inj h
    exact ⟨rfl, rfl, rfl, rfl, rfl⟩

theorem names_spawn (h : ∀ x ∈ wave, x ∈ names steps) :
    ((setup.engine steps).spawn wave).map (fun t => t.step.stepName) = wave := by
  induction wave with
  | nil => rfl
  | cons x wave ih =>
    obtain ⟨s, hs⟩ := exists_stepNamed (h x mem_cons_self)
    have hr := ih fun y hy => h y (mem_cons_of_mem x hy)
    simp only [DagSetup.engine] at hr ⊢
    rw [filterMap_cons_some hs, map_cons, map_cons, hr]
    exact congrArg (· :: wave) (stepNamed_mem hs).2

theorem mem_spawn (h : t ∈ (setup.engine steps).spawn wave) :
    stepNamed steps t.step.stepName = some t.step ∧ t.phase = .created := by
  obtain ⟨s, hs, rfl⟩ := mem_map.mp h
  obtain ⟨name, -, hn⟩ := mem_filterMap.mp hs
  obtain ⟨-, rfl⟩ := stepNamed_mem hn
  exact ⟨hn, rfl⟩

theorem all_start (shared : DagShared) (limit : Nat) (waves : List (List String)) :
    ((setup.engine steps).start shared limit waves).all (setup.engine steps) =
      waves.flatMap (setup.engine steps).spawn := by
  cases waves with
  | nil => rfl
  | cons w rest => rfl

theorem names_flatMap_spawn {waves : List (List String)} (h : ∀ x ∈ waves.flatten, x ∈ names steps) :
    (waves.flatMap (setup.engine steps).spawn).map (fun t => t.step.stepName) = waves.flatten := by
  induction waves with
  | nil => rfl
  | cons w rest ih =>
    rw [flatMap_cons, map_append, flatten_cons,
      names_spawn fun x hx => h x (by simp [hx]), ih fun x hx => h x (by simp [hx])]

section
variable (h : setup.Reaches A dag initial r)
include h

theorem names_all :
    (r.all (setup.engine dag.steps)).map (fun t => t.step.stepName) = (topoSort dag.steps).flatten := by
  obtain ⟨start, hs, hre⟩ := h
  obtain ⟨ctx, -, rfl⟩ := execute_eq_ok hs
  rw [reach_labels _ (fun i t s t' s' hr => congrArg DagStep.stepName (engine_label i t s t' s' hr)) hre,
    all_start, names_flatMap_spawn fun x hx => mem_names_of_mem_topoSort hx]

theorem nodup_all :
    ((r.all (setup.engine dag.steps)).map fun t => t.step.stepName).Nodup := by
  rw [names_all h]
  exact topoSort_nodup dag.steps

/-- A property of a step and of what the steps share, at every moment of a run: the turns that can be
taken from a state on the way must keep it. -/
theorem reaches_tasks_at (hst : ∀ ctx, dag.newContext initial = .ok ctx → ∀ s ∈ dag.steps, P ⟨s, .created⟩ { ctx })
    (how : ∀ s signal step ph ph' sh', setup.OnTheWay A dag initial s r → ⟨step, ph⟩ ∈ s.pool.tasks →
      A ⟨step, ph⟩ signal → P ⟨step, ph⟩ s.shared → StepTurn setup step signal ph s.shared ph' sh' →
      P ⟨step, ph'⟩ sh')
    (ho : ∀ s signal step ph ph' sh' u, setup.OnTheWay A dag initial s r → ⟨step, ph⟩ ∈ s.pool.tasks →
      A ⟨step, ph⟩ signal → P ⟨step, ph⟩ s.shared → u ∈ s.all (setup.engine dag.steps) →
      u.step.stepName ≠ step.stepName → P u s.shared → StepTurn setup step signal ph s.shared ph' sh' → P u sh') :
    ∀ t ∈ r.all (setup.engine dag.steps), P t r.shared := by
  have hal := nodup_all h
  obtain ⟨start, he, hrea⟩ := h
  have hreac : ∀ s, (setup.engine dag.steps).Reach A start s → (setup.engine dag.steps).Reach A s r →
      setup.OnTheWay A dag initial s r := fun s hs hr => ⟨⟨start, he, hs⟩, hr⟩
  obtain ⟨ctx, hc, rfl⟩ := execute_eq_ok he
  have hl := reach_labels (fun t : StepTask => t.step.stepName)
    (fun i t s t' s' hr => congrArg DagStep.stepName (engine_label i t s t' s' hr)) hrea
  refine reach_tasks (fun t : StepTask => t.step.stepName)
    (fun i t s t' s' hr => congrArg DagStep.stepName (engine_label i t s t' s' hr)) hrea (hl ▸ hal) ?_ ?_ ?_
  · rintro s hs hr signal ⟨step, ph⟩ ⟨step', ph'⟩ sh' hm ha hP hre
    obtain ⟨rfl, htu⟩ := resume_eq_some hre
    exact how s signal _ ph ph' sh' (hreac s hs hr) hm ha hP htu
  · rintro s hs hr signal ⟨step, ph⟩ ⟨step', ph'⟩ sh' u hm ha hP hu hne hPu hre
    obtain ⟨rfl, htu⟩ := resume_eq_some hre
    exact ho s signal _ ph ph' sh' u (hreac s hs hr) hm ha hP hu hne hPu htu
  · intro t ht
    rw [all_start] at ht
    obtain ⟨w, -, ht⟩ := mem_flatMap.mp ht
    obtain ⟨hste, hp⟩ := mem_spawn ht
    obtain ⟨step, ph⟩ := t
    obtain rfl : ph = .created := hp
    have hsh : ((setup.engine dag.steps).start { ctx } (setup.limit dag.maxConcurrent).toNat
        (topoSort dag.steps)).shared = { ctx } := by
      cases topoSort dag.steps <;> rfl
    rw [hsh]
    exact hst ctx hc step (stepNamed_mem hste).1

theorem reaches_tasks (hs : ∀ ctx, dag.newContext initial = .ok ctx → ∀ s ∈ dag.steps, P ⟨s, .created⟩ { ctx })
    (how : ∀ signal step ph sh ph' sh', A ⟨step, ph⟩ signal → P ⟨step, ph⟩ sh →
      StepTurn setup step signal ph sh ph' sh' → P ⟨step, ph'⟩ sh')
    (ho : ∀ signal step ph sh ph' sh' u, A ⟨step, ph⟩ signal → P ⟨step, ph⟩ sh → u.step.stepName ≠ step.stepName →
      P u sh → StepTurn setup step signal ph sh ph' sh' → P u sh') :
    ∀ t ∈ r.all (setup.engine dag.steps), P t r.shared :=
  reaches_tasks_at h hs (fun _ signal step ph ph' sh' _ _ => how signal step ph _ ph' sh')
    fun _ signal step ph ph' sh' u _ _ ha hP _ => ho signal step ph _ ph' sh' u ha hP

theorem stepNamed_task :
    ∀ t ∈ r.all (setup.engine dag.steps), stepNamed dag.steps t.step.stepName = some t.step := by
  intro t ht
  obtain ⟨start, hs, hr⟩ := h
  obtain ⟨ctx, -, rfl⟩ := execute_eq_ok hs
  have hste := reach_labels StepTask.step engine_label hr
  have hm : t.step ∈ (r.all (setup.engine dag.steps)).map StepTask.step := mem_map_of_mem ht
  rw [hste, all_start] at hm
  obtain ⟨u, hu, hst⟩ := mem_map.mp hm
  obtain ⟨w, -, hu⟩ := mem_flatMap.mp hu
  rw [← hst]
  exact (mem_spawn hu).1

theorem exists_task (hd : (names dag.steps).Nodup) {s : DagStep}
    (hs : s ∈ dag.steps) (hn : s.stepName ∈ (topoSort dag.steps).flatten) :
    ∃ t ∈ r.all (setup.engine dag.steps), t.step = s := by
  rw [← names_all h] at hn
  obtain ⟨t, ht, hsa⟩ := mem_map.mp hn
  have hm := (stepNamed_mem (stepNamed_task h t ht)).1
  exact ⟨t, ht, inj_on_of_nodup_map hd hm hs hsa⟩

theorem step_mem : ∀ t ∈ r.all (setup.engine dag.steps), t.step ∈ dag.steps :=
  fun t ht => (stepNamed_mem (stepNamed_task h t ht)).1

end

/-- An invariant of what the steps share, over every run. -/
theorem reaches_shared {I : DagShared → Prop} (h : setup.Reaches A dag initial r)
    (hst : ∀ ctx, dag.newContext initial = .ok ctx → I { ctx })
    (htu : ∀ signal step ph sh ph' sh', step ∈ dag.steps → step.stepName ∈ (topoSort dag.steps).flatten →
      A ⟨step, ph⟩ signal → StepTurn setup step signal ph sh ph' sh' → I sh → I sh') : I r.shared := by
  have hsc : ∀ s, setup.Reaches A dag initial s → ∀ t ∈ s.pool.tasks, t.step ∈ dag.steps ∧
      t.step.stepName ∈ (topoSort dag.steps).flatten := by
    intro s hs t ht
    have hal : t ∈ s.all (setup.engine dag.steps) := by simp [ForkJoin.State.all, ht]
    rw [← names_all hs]
    exact ⟨step_mem hs t hal, mem_map.mpr ⟨t, hal, rfl⟩⟩
  obtain ⟨start, he, hr⟩ := h
  induction hr with
  | refl =>
    obtain ⟨ctx, hc, rfl⟩ := execute_eq_ok he
    have hsh : ((setup.engine dag.steps).start { ctx } (setup.limit dag.maxConcurrent).toNat
        (topoSort dag.steps)).shared = { ctx } := by
      cases topoSort dag.steps <;> rfl
    rw [hsh]
    exact hst ctx hc
  | @tail s s' hs hne ih =>
    rcases next_cases hne with ⟨_, _, t, _, _, _, shared, ha, hta, hre, -, -, heq⟩ | ⟨-, -, rfl⟩
    · obtain ⟨-, ht'⟩ := resume_eq_some hre
      obtain ⟨hm, hn⟩ := hsc s ⟨start, he, hs⟩ t (by simp [hta])
      rw [heq]
      exact htu _ _ _ _ _ _ hm hn ha ht' ih
    · rw [gather_shared]
      exact ih

theorem reaches_judged (h : setup.Reaches A dag initial r) : (setup.engine dag.steps).Judged r := by
  obtain ⟨start, hs, hr⟩ := h
  obtain ⟨ctx, -, rfl⟩ := execute_eq_ok hs
  exact reach_judged engine_fair hr (judged_start _ _ _)

theorem topoSort_ne_nil (h : setup.Reaches A dag initial r) (ht : t ∈ r.pool.tasks) : topoSort dag.steps ≠ [] := by
  intro hni
  obtain ⟨start, hst, hr⟩ := h
  obtain ⟨ctx, -, rfl⟩ := execute_eq_ok hst
  rw [hni] at hr
  have he := reach_invariant (I := fun s : DagRun => s.pool.tasks = [] ∧ s.verdict = some true) ?_
    hr ⟨rfl, rfl⟩
  · rw [he.1] at ht
    cases ht
  · intro s s' hne hs
    rcases next_cases hne with ⟨_, _, u, _, _, _, _, -, hta, -⟩ | ⟨hn, -⟩
    · rw [hs.1] at hta
      simp at hta
    · rw [hs.2] at hn
      cases hn

/-- The waves behind a run, the one it is in and those to come. -/
theorem reaches_position (h : setup.Reaches A dag initial r) (ht : t ∈ r.pool.tasks) :
    ∃ passed wave, topoSort dag.steps = passed ++ wave :: r.todo ∧
      r.past.map (fun t => t.step.stepName) = passed.flatten ∧
      r.pool.tasks.map (fun t => t.step.stepName) = wave ∧
      ∀ u ∈ r.past, u.phase.isEnded = true ∧ DagSetup.stops u = false := by
  have hwa := topoSort_ne_nil h ht
  obtain ⟨start, hs, hre⟩ := h
  obtain ⟨ctx, -, rfl⟩ := execute_eq_ok hs
  obtain ⟨passed, wave, ho, hp, hpo⟩ := reach_position (fun t : StepTask => t.step.stepName)
    (fun i t s t' s' hr => congrArg DagStep.stepName (engine_label i t s t' s' hr)) hwa hre
  have hk : ∀ w ∈ topoSort dag.steps, ∀ x ∈ w, x ∈ names dag.steps := fun w hw x hx =>
    mem_names_of_mem_topoSort (mem_flatten.mpr ⟨w, hw, hx⟩)
  refine ⟨passed, wave, ho, ?_, ?_, reach_past hre ?_⟩
  · have hn : passed.flatten = passed.flatMap fun w => w := flatMap_id'.symm
    rw [hp, hn]
    exact flatMap_congr fun w hw => names_spawn (hk w (by simp [ho, hw]))
  · rw [hpo]
    exact names_spawn (hk wave (by simp [ho]))
  · cases topoSort dag.steps <;> exact fun u hu => absurd hu not_mem_nil

def ownTrace (runner : String) (trace : List DagEvent) : List DagEvent :=
  trace.filter fun e => e.runner = runner

theorem mem_ownTrace {trace : List DagEvent} {e : DagEvent} (h : e.runner = runner) :
    e ∈ ownTrace runner trace ↔ e ∈ trace := by
  simp [ownTrace, h]

theorem ownTrace_append_other {events : List DagEvent} (h : ∀ e ∈ events, e.runner ≠ runner)
    (trace : List DagEvent) : ownTrace runner (trace ++ events) = ownTrace runner trace := by
  have hn : events.filter (fun e => decide (e.runner = runner)) = [] :=
    filter_eq_nil_iff.mpr fun e he => by simpa using h e he
  rw [ownTrace, filter_append, hn, append_nil]
  rfl

/-- An invariant of a step and its own part of the trace. -/
theorem reaches_own {P : DagStep → Phase → List DagEvent → Prop} (h : setup.Reaches A dag initial r)
    (ho : ∀ step ph trace trace', ownTrace step.stepName trace = ownTrace step.stepName trace' →
      P step ph trace → P step ph trace') (hst : ∀ s ∈ dag.steps, P s .created [])
    (htu : ∀ signal step ph sh ph' sh', step ∈ dag.steps → A ⟨step, ph⟩ signal → P step ph sh.trace →
      StepTurn setup step signal ph sh ph' sh' → P step ph' sh'.trace) :
    ∀ t ∈ r.all (setup.engine dag.steps), P t.step t.phase r.shared.trace := by
  intro t ht
  refine (reaches_tasks (P := fun t sh => t.step ∈ dag.steps ∧ P t.step t.phase sh.trace) h ?_ ?_ ?_ t ht).2
  · exact fun ctx _ s hs => ⟨hs, hst s hs⟩
  · exact fun signal step ph sh ph' sh' ha hP ht' =>
      ⟨hP.1, htu signal step ph sh ph' sh' hP.1 ha hP.2 ht'⟩
  · intro signal step ph sh ph' sh' u _ _ hne hPu ht'
    obtain ⟨events, htr, hr, -⟩ := ht'.tellsAll
    refine ⟨hPu.1, ho _ _ _ _ ?_ hPu.2⟩
    rw [htr, ownTrace_append_other]
    intro e he
    rw [hr e he]
    exact Ne.symm hne

theorem mem_trace_runner (h : setup.Reaches A dag initial r) :
    ∀ e ∈ r.shared.trace, e.runner ∈ (topoSort dag.steps).flatten := by
  refine reaches_shared (I := fun sh => ∀ e ∈ sh.trace, e.runner ∈ (topoSort dag.steps).flatten) h
    (fun _ _ e he => absurd he not_mem_nil) ?_
  intro signal step ph sh ph' sh' _ hs _ htu hsh e he
  obtain ⟨events, ht, hr, -⟩ := htu.tellsAll
  rw [ht] at he
  rcases mem_append.mp he with he | he
  · exact hsh e he
  · rw [hr e he]
    exact hs

/-- The trace tells the end of a step exactly when it has ended. -/
theorem mem_trace_ended (h : setup.Reaches A dag initial r) : ∀ t ∈ r.all (setup.engine dag.steps), ∀ outcome,
      .ended t.step.stepName outcome ∈ r.shared.trace ↔ t.phase = .ended outcome := by
  refine reaches_tasks (P := fun t sh => ∀ outcome,
    .ended t.step.stepName outcome ∈ sh.trace ↔ t.phase = .ended outcome) h ?_ ?_ ?_
  · intro ctx _ s _ outcome
    constructor
    · exact fun hm => absurd hm not_mem_nil
    · exact fun heq => by cases heq
  · intro signal step ph sh ph' sh' _ hP ht outcome
    obtain ⟨events, htr, -, he⟩ := ht.tellsAll
    have hb : .ended step.stepName outcome ∉ sh.trace := by
      intro hm
      have hph : ph = .ended outcome := (hP outcome).mp hm
      subst hph
      cases ht
    rw [htr, mem_append, he outcome]
    exact ⟨fun hor => hor.resolve_left hb, .inr⟩
  · intro signal step ph sh ph' sh' u _ _ hne hPu ht outcome
    obtain ⟨events, htr, hr, -⟩ := ht.tellsAll
    rw [← hPu outcome, htr, mem_append]
    constructor
    · rintro (hm | hm)
      · exact hm
      · exact absurd (hr _ hm) hne
    · exact .inl

end

end

open DagEngine (names dependencies stepNamed topoSort)

def Earlier (steps : List DagStep) (a b : String) : Prop :=
  ∃ (i j : Nat) (waveA waveB : List String), i < j ∧ (topoSort steps)[i]? = some waveA ∧ a ∈ waveA ∧
    (topoSort steps)[j]? = some waveB ∧ b ∈ waveB

/-- What must be in the trace, and what must not, before a call of `b`. -/
def CallAllowed (dag : DagDefinition) (before : List DagEvent) (b : String) : Prop :=
  (∀ d ∈ dependencies dag.steps b, ∃ outcome, .ended d outcome ∈ before) ∧
  ∀ s ∈ dag.steps, s.onFailure = .abort → Earlier dag.steps s.stepName b →
    ∀ e, e.isException = true → .ended s.stepName (.error e) ∉ before

def CallsAllowed (dag : DagDefinition) (trace : List DagEvent) : Prop :=
  ∀ before b call after, trace = before ++ .called b call :: after → CallAllowed dag before b

section
variable {setup : DagSetup} {A : StepTask → Signal → Prop} {dag : DagDefinition}
  {initial : JsonObj} {r r' : DagRun}

theorem CallAllowed.append {before events : List DagEvent} {b : String} (h : CallAllowed dag before b)
    (hev : ∀ e ∈ events, e.runner = b) (hse : ∀ s ∈ dag.steps, Earlier dag.steps s.stepName b → s.stepName ≠ b) :
    CallAllowed dag (before ++ events) b := by
  refine ⟨fun d hd => ?_, fun s hs ha hea e he hm => ?_⟩
  · obtain ⟨outcome, hm⟩ := h.1 d hd
    exact ⟨outcome, mem_append_left _ hm⟩
  · rcases mem_append.mp hm with hm | hm
    · exact h.2 s hs ha hea e he hm
    · exact hse s hs hea (hev _ hm)

theorem CallsAllowed.append {trace events : List DagEvent} {b : String} (h : CallsAllowed dag trace)
    (hb : CallAllowed dag trace b) (hev : ∀ e ∈ events, e.runner = b)
    (hs : ∀ s ∈ dag.steps, Earlier dag.steps s.stepName b → s.stepName ≠ b) : CallsAllowed dag (trace ++ events) := by
  intro before c call after hsp
  rcases append_eq_append_iff.mp hsp with ⟨mid, rfl, hm⟩ | ⟨mid, rfl, hm⟩
  · have hc : c = b := hev (.called c call) (by simp [hm])
    subst hc
    exact hb.append (fun e he => hev e (by simp [hm, he])) hs
  · cases mid with
    | nil =>
      have hc : c = b := hev (.called c call) (by
        rw [nil_append] at hm
        simp [← hm])
      subst hc
      rw [append_nil] at hb
      exact hb
    | cons e mid =>
      obtain ⟨rfl, rfl⟩ := List.cons.inj hm
      exact h before c call mid rfl

variable (hdistinct : (names dag.steps).Nodup)
include hdistinct

theorem not_earlier_self {a : String} : ¬ Earlier dag.steps a a := by
  rintro ⟨i, j, waveA, waveB, hij, hA, ha, hB, ha'⟩
  obtain ⟨hl, -⟩ := DagEngine.topoSort_levels hdistinct
  have hlo := ((hl i waveA hA a).mp ha).1
  have hh := ((hl j waveB hB a).mp ha').2
  exact hh (upTo_mono hij hlo)

/-- A step of the current wave has all its dependencies behind it. -/
theorem callAllowed_current (h : setup.Reaches A dag initial r) {t : StepTask} (ht : t ∈ r.pool.tasks) :
    CallAllowed dag r.shared.trace t.step.stepName := by
  have hen := mem_trace_ended h
  have hste := step_mem h
  obtain ⟨passed, wave, ho, hpa, hpo, hg⟩ := reaches_position h ht
  have hc : t.step.stepName ∈ wave := hpo ▸ mem_map_of_mem ht
  -- The task of a step behind this wave is kept
  have hbe : ∀ x ∈ passed.flatten, ∃ u ∈ r.past, u ∈ r.all (setup.engine dag.steps) ∧ u.step.stepName = x := by
    intro x hx
    rw [← hpa] at hx
    obtain ⟨u, hu, hn⟩ := mem_map.mp hx
    exact ⟨u, hu, by simp [ForkJoin.State.all, hu], hn⟩
  refine ⟨fun d hd => ?_, fun s hs hab hea e he hm => ?_⟩
  · obtain ⟨⟨step, ph⟩, hu, hal, rfl⟩ :=
      hbe d (DagEngine.mem_passed_of_dependency hdistinct ho hc hd)
    have hend := (hg _ hu).1
    cases ph with
    | ended outcome => exact ⟨outcome, (hen _ hal outcome).mpr rfl⟩
    | _ => cases hend
  · obtain ⟨i, j, waveA, waveB, hij, hA, ha, hB, hb⟩ := hea
    obtain ⟨hl, -⟩ := DagEngine.topoSort_levels hdistinct
    have hat : (topoSort dag.steps)[passed.length]? = some wave := by simp [ho]
    -- A step has one level, so the wave of `t` is where the run stands
    have hj : j ≤ passed.length := by
      by_contra hgt
      have hlo := ((hl _ wave hat _).mp hc).1
      have hh := ((hl j waveB hB _).mp hb).2
      exact hh (upTo_mono (by omega) hlo)
    have hp : waveA ∈ passed := by
      rw [ho, List.getElem?_append_left (by omega)] at hA
      exact mem_of_getElem? hA
    obtain ⟨u, hu, hal, hn⟩ := hbe s.stepName (mem_flatten.mpr ⟨waveA, hp, ha⟩)
    have hph := (hen u hal (.error e)).mp (hn ▸ hm)
    have hst : u.step = s := inj_on_of_nodup_map hdistinct (hste u hal) hs hn
    have hgo := (hg u hu).2
    simp [DagSetup.stops, hph, hst, hab, he] at hgo

theorem callsAllowed_reaches (h : setup.Reaches A dag initial r) : CallsAllowed dag r.shared.trace := by
  obtain ⟨start, hst, hr⟩ := h
  have hre : ∀ s, (setup.engine dag.steps).Reach A start s → setup.Reaches A dag initial s :=
    fun s hs => ⟨start, hst, hs⟩
  induction hr with
  | refl =>
    obtain ⟨ctx, -, rfl⟩ := execute_eq_ok hst
    intro before b call after hsp
    cases hto : topoSort dag.steps <;> simp [hto, ForkJoin.start] at hsp
  | @tail s s' hs hn ih =>
    rcases ForkJoin.next_cases hn with ⟨j, i, t, t', before, after, shared, -, ht, hres, -, -, heq⟩ |
        ⟨-, -, rfl⟩
    · have hsh : s'.shared = shared := by rw [heq]
      obtain ⟨-, htu⟩ := resume_eq_some hres
      obtain ⟨events, htr, hru, -⟩ := htu.tellsAll
      rw [hsh, htr]
      refine ih.append (callAllowed_current hdistinct (hre s hs) (by simp [ht])) hru ?_
      rintro u - he heq
      rw [heq] at he
      exact not_earlier_self hdistinct he
    · rw [ForkJoin.gather_shared]
      exact ih

omit hdistinct in
theorem inside_le_limit (h : setup.Reaches A dag initial r) :
    r.pool.tasks.countP (fun t => t.phase.holds) ≤ (setup.limit dag.maxConcurrent).toNat := by
  obtain ⟨start, hs, hr⟩ := h
  obtain ⟨ctx, -, rfl⟩ := execute_eq_ok hs
  have hc := ForkJoin.reach_capacity engine_fair hr
  rw [ForkJoin.start_capacity engine_fair] at hc
  have hh : (setup.engine dag.steps).held r.pool = r.pool.tasks.countP fun t => t.phase.holds := rfl
  omega

end

/-- At every moment of every run: a step has made a call only after everything it depends on had
ended; no call has followed the failure of an `ABORT` step of an earlier wave; and at most
`min(max_parallelism, max_concurrent)` steps are inside the semaphore. -/
theorem scheduling_safe (setup : DagSetup) (dag : DagDefinition) (initial : JsonObj)
    (hdistinct : (names dag.steps).Nodup) (r : DagRun) (h : setup.Reaches (fun _ _ => True) dag initial r) :
    (∀ before b call after, r.shared.trace = before ++ .called b call :: after →
      ∀ d ∈ dependencies dag.steps b, ∃ outcome, .ended d outcome ∈ before) ∧
    (∀ before b call after, r.shared.trace = before ++ .called b call :: after →
      ∀ s ∈ dag.steps, s.onFailure = .abort → Earlier dag.steps s.stepName b →
        ∀ e, e.isException = true → .ended s.stepName (.error e) ∉ before) ∧
    r.pool.tasks.countP (fun t => t.phase.holds) ≤ (setup.limit dag.maxConcurrent).toNat := by
  have hc := callsAllowed_reaches hdistinct h
  refine ⟨fun before b call after hs => (hc before b call after hs).1,
    fun before b call after hs => (hc before b call after hs).2, inside_le_limit h⟩

def oneCall (j : Nat) (outcome : Except PyErr JsonValue) : List (ForkJoin.Move Signal) :=
  [.turn j .go, .turn j .go, .turn j .go, .turn j (.reply outcome)]

def pairDag : DagDefinition :=
  { dagId := "d"
    steps := [{ stepName := "a", capability := "gpu" }, { stepName := "b", capability := "gpu", dependsOn := ["a"] }] }

def pairRun : Option DagRun :=
  DagSetup.after {} pairDag [] (oneCall 0 (.ok (.obj [])) ++ [.gathered] ++ (oneCall 0 (.ok (.obj []))).take 3)

theorem scheduling_safe_pair : ∃ r, pairRun = some r ∧
    r.shared.trace = [.called "a" (.dispatch "gpu" "a" []), .replied "a" none (.ok (.obj [])),
      .ended "a" (.ok (.obj [])), .called "b" (.dispatch "gpu" "b" [])] ∧
    r.pool.tasks.countP (fun t => t.phase.holds) ≤ 8 := by
  have ht : pairRun.map (fun r => r.shared.trace) = some
      [.called "a" (.dispatch "gpu" "a" []), .replied "a" none (.ok (.obj [])), .ended "a" (.ok (.obj [])),
        .called "b" (.dispatch "gpu" "b" [])] := by
    decide +kernel
  obtain ⟨r, hr, ht⟩ := Option.map_eq_some_iff.mp ht
  exact ⟨r, hr, ht, (scheduling_safe {} pairDag [] (by decide) r (reaches_of_after hr fun _ _ _ _ => trivial)).2.2⟩

end AsyncScheduler
