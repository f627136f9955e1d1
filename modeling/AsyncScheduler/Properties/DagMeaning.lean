import AsyncScheduler.Properties.DagFrames
import AsyncScheduler.Properties.MapResults

/-!
# The meaning of a DAG

What a DAG is for, without tasks and turns: wave after wave, what becomes of each step is decided by
the context at the beginning of its wave, and the context after the wave has what its steps have
written.
-/

namespace AsyncScheduler

variable {c d : DagContext} {step : DagStep} {e : DagContext} {parse : String → Option Expr} {wave : List DagStep}

open DagEngine (stepNamed)

/-- Contexts that are equal as dicts and sets. -/
structure SameContext (c d : DagContext) : Prop where
  input : c.inputData = d.inputData
  context : ∀ k, c.context.lookup k = d.context.lookup k
  results : ∀ n, c.stepResults.lookup n = d.stepResults.lookup n
  completed : ∀ n, n ∈ c.completedSteps ↔ n ∈ d.completedSteps

/-- Contexts that are equal in what a step writes. -/
structure OwnAlike (step : DagStep) (c d : DagContext) : Prop where
  context : ∀ k ∈ step.outputMapping.keys, c.context.lookup k = d.context.lookup k
  result : c.stepResults.lookup step.stepName = d.stepResults.lookup step.stepName
  completed : step.stepName ∈ c.completedSteps ↔ step.stepName ∈ d.completedSteps

def DagStep.contextReads (parse : String → Option Expr) (step : DagStep) : List String :=
  conditionNames parse step.condition ++ step.inputMapping.sources ++ step.mapKey.toList

/-- Contexts that are equal in what a step reads. -/
structure ReadsAlike (parse : String → Option Expr) (step : DagStep) (c d : DagContext) : Prop where
  input : c.inputData = d.inputData
  context : ∀ k ∈ step.contextReads parse, c.context.lookup k = d.context.lookup k
  results : ∀ k ∈ step.inputMapping.sources, c.stepResults.lookup k = d.stepResults.lookup k

theorem OwnAlike.refl (step : DagStep) (c : DagContext) : OwnAlike step c c := ⟨fun _ _ => rfl, rfl, .rfl⟩

theorem ReadsAlike.refl (parse : String → Option Expr) (step : DagStep) (c : DagContext) : ReadsAlike parse step c c :=
  ⟨rfl, fun _ _ => rfl, fun _ _ => rfl⟩

theorem OwnAlike.trans (h : OwnAlike step c d) (h' : OwnAlike step d e) : OwnAlike step c e :=
  ⟨fun k hk => (h.context k hk).trans (h'.context k hk), h.result.trans h'.result, h.completed.trans h'.completed⟩

theorem OwnAlike.symm (h : OwnAlike step c d) : OwnAlike step d c :=
  ⟨fun k hk => (h.context k hk).symm, h.result.symm, h.completed.symm⟩

theorem ReadsAlike.trans
    (h : ReadsAlike parse step c d) (h' : ReadsAlike parse step d e) : ReadsAlike parse step c e :=
  ⟨h.input.trans h'.input, fun k hk => (h.context k hk).trans (h'.context k hk),
    fun k hk => (h.results k hk).trans (h'.results k hk)⟩

theorem SameContext.own (h : SameContext c d) (step : DagStep) : OwnAlike step c d :=
  ⟨fun k _ => h.context k, h.results _, h.completed _⟩

theorem SameContext.reads (h : SameContext c d) (parse : String → Option Expr) (step : DagStep) :
    ReadsAlike parse step c d :=
  ⟨h.input, fun k _ => h.context k, fun k _ => h.results k⟩

theorem skipped_congr (h : ReadsAlike parse step c d) : step.skipped parse c = step.skipped parse d := by
  unfold DagStep.skipped
  cases hc : step.condition with
  | none => rfl
  | some expr =>
    dsimp only
    rw [safeEvalCondition_congr]
    intro n hn
    have hm : n ∈ step.contextReads parse := by
      rw [DagStep.contextReads, hc]
      simp [hn]
    rw [DagContext.localVars, DagContext.localVars, h.input, h.context n hm]

theorem buildInput_congr (h : ReadsAlike parse step c d) : step.buildInput c = step.buildInput d := by
  have hs : ∀ e ∈ step.inputMapping.entries, c.source e.2 = d.source e.2 := by
    intro e he
    have hsr : e.2 ∈ step.inputMapping.sources := List.mem_map_of_mem he
    have hc : e.2 ∈ step.contextReads parse := by simp [DagStep.contextReads, hsr]
    rw [DagContext.source, DagContext.source, h.context e.2 hc, h.results e.2 hsr]
  unfold DagStep.buildInput
  rw [h.input]
  refine List.foldl_ext _ _ _ fun input e he => ?_
  rw [hs e he]

theorem mapItems_congr {coll : String} (hm : step.mapKey = some coll) (h : ReadsAlike parse step c d)
    (input : JsonObj) : DagStep.mapItems coll input c = DagStep.mapItems coll input d := by
  have hme : coll ∈ step.contextReads parse := by simp [DagStep.contextReads, hm]
  unfold DagStep.mapItems
  rw [h.context coll hme]

theorem mapOutput_alike (mapping : List (String × String)) (result : JsonValue)
    (target target' : JsonObj) :
    (∃ e, mapOutput mapping result target = .error e ∧ mapOutput mapping result target' = .error e) ∨
    ∃ context context', mapOutput mapping result target = .ok context ∧ mapOutput mapping result target' = .ok context' ∧
      ∀ k, target.lookup k = target'.lookup k → context.lookup k = context'.lookup k := by
  induction mapping generalizing target target' with
  | nil => exact .inr ⟨target, target', rfl, rfl, fun _ => id⟩
  | cons m mapping ih =>
    rw [mapOutput, mapOutput, List.foldlM_cons, List.foldlM_cons]
    cases result with
    | obj fields =>
      rcases ih (((fields.lookup m.2).map (JsonValue.assign target m.1)).getD target)
        (((fields.lookup m.2).map (JsonValue.assign target' m.1)).getD target') with ⟨e, he, he'⟩ | ⟨x, y, hx, hy, hxy⟩
      · exact .inl ⟨e, he, he'⟩
      · refine .inr ⟨x, y, hx, hy, fun k hk => hxy k ?_⟩
        cases fields.lookup m.2 with
        | none => exact hk
        | some v =>
          simp only [Option.map_some, Option.getD_some, JsonValue.lookup_assign]
          split
          · rfl
          · exact hk
    | arr items =>
      dsimp only
      split
      · exact .inl ⟨_, rfl, rfl⟩
      · exact ih target target'
    | str text =>
      dsimp only
      split
      · exact .inl ⟨_, rfl, rfl⟩
      · exact ih target target'
    | _ => exact .inl ⟨_, rfl, rfl⟩

theorem record_alike (step : DagStep) (result : JsonValue) (c d : DagContext) :
    (∃ e, step.record result c = .error e ∧ step.record result d = .error e) ∨
    ∃ c' d', step.record result c = .ok c' ∧ step.record result d = .ok d' ∧ (OwnAlike step c d → OwnAlike step c' d') := by
  unfold DagStep.record
  rcases mapOutput_alike step.outputMapping.entries result c.context d.context with
    ⟨e, he, he'⟩ | ⟨x, y, hx, hy, hxy⟩
  · rw [he, he']
    exact .inl ⟨e, rfl, rfl⟩
  · rw [hx, hy]
    refine .inr ⟨_, _, rfl, rfl, fun h => ⟨fun k hk => hxy k (h.context k hk), ?_, by simp⟩⟩
    rw [JsonValue.lookup_assign, JsonValue.lookup_assign, if_pos rfl, if_pos rfl]

abbrev Answers := Call → Except PyErr JsonValue

def DagStep.work (step : DagStep) (env : Answers) (input : JsonObj) (ctx : DagContext) :
    Except PyErr JsonValue :=
  match step.mapKey with
  | some coll =>
    let items := DagStep.mapItems coll input ctx
    step.collect (step.gatheredItems (fun i => env (step.itemCall coll input i (items[i]?.getD .null))) items)
  | none => if step.attempts = 0 then .ok (.obj []) else step.conclude (env (step.request input))

inductive Fate where
  | skip
  | record (result : JsonValue)
  | raise (e : PyErr)

def DagStep.fate (parse : String → Option Expr) (env : Answers) (step : DagStep) (ctx : DagContext) : Fate :=
  if step.skipped parse ctx then .skip
  else
    match step.work env (step.buildInput ctx) ctx with
    | .error e => .raise e
    | .ok result =>
      match step.record result ctx with
      | .error e => .raise e
      | .ok _ => .record result

namespace Fate

def apply (step : DagStep) (ctx : DagContext) : Fate → DagContext
  | .skip => { ctx with completedSteps := ctx.completedSteps ++ [step.stepName] }
  | .record result =>
    match step.record result ctx with
    | .ok ctx' => ctx'
    | .error _ => ctx
  | .raise _ => ctx

/-- How `_run_step` ends. -/
def outcome (hasStore : Bool) (saves : DagStep → Except PyErr Unit) (step : DagStep) : Fate → Except PyErr JsonValue
  | .skip => .ok (.obj [])
  | .record result => if hasStore then (saves step).map fun _ => result else .ok result
  | .raise e => .error e

theorem apply_alike (F : Fate) {step : DagStep} {c d : DagContext} (h : OwnAlike step c d) :
    OwnAlike step (F.apply step c) (F.apply step d) := by
  cases F with
  | skip => exact ⟨h.context, h.result, by simp [apply]⟩
  | raise e => exact h
  | record result =>
    rcases record_alike step result c d with ⟨e, he, he'⟩ | ⟨c', d', hc, hd, ho⟩
    · simp only [apply, he, he']
      exact h
    · simp only [apply, hc, hd]
      exact ho h

end Fate

section
variable (env : Answers)

theorem work_congr (h : ReadsAlike parse step c d) (input : JsonObj) :
    step.work env input c = step.work env input d := by
  unfold DagStep.work
  cases hm : step.mapKey with
  | none => rfl
  | some coll =>
    dsimp only
    rw [mapItems_congr hm h]

theorem fate_congr (h : ReadsAlike parse step c d) : step.fate parse env c = step.fate parse env d := by
  unfold DagStep.fate
  rw [skipped_congr h, buildInput_congr h, work_congr env h]
  split
  · rfl
  · cases step.work env (step.buildInput d) d with
    | error e => rfl
    | ok result =>
      dsimp only
      rcases record_alike step result c d with ⟨e, he, he'⟩ | ⟨c', d', hc, hd, -⟩
      · rw [he, he']
      · rw [hc, hd]

end

/-- Contexts that are equal in what no step of a wave writes. -/
structure OutsideAlike (wave : List DagStep) (c d : DagContext) : Prop where
  input : c.inputData = d.inputData
  context : ∀ k, (∀ s ∈ wave, k ∉ s.outputMapping.keys) → c.context.lookup k = d.context.lookup k
  results : ∀ n, (∀ s ∈ wave, n ≠ s.stepName) → c.stepResults.lookup n = d.stepResults.lookup n
  completed : ∀ n, (∀ s ∈ wave, n ≠ s.stepName) → (n ∈ c.completedSteps ↔ n ∈ d.completedSteps)

theorem OutsideAlike.refl (wave : List DagStep) (c : DagContext) : OutsideAlike wave c c :=
  ⟨rfl, fun _ _ => rfl, fun _ _ => rfl, fun _ _ => .rfl⟩

theorem OutsideAlike.trans (h : OutsideAlike wave c d) (h' : OutsideAlike wave d e) : OutsideAlike wave c e :=
  ⟨h.input.trans h'.input, fun k hk => (h.context k hk).trans (h'.context k hk),
    fun n hn => (h.results n hn).trans (h'.results n hn), fun n hn => (h.completed n hn).trans (h'.completed n hn)⟩

/-- What a wave makes of a context: its steps have written what is theirs, nothing else has changed. -/
structure WaveEffect (parse : String → Option Expr) (env : Answers) (wave : List DagStep) (c c' : DagContext) : Prop where
  own : ∀ s ∈ wave, OwnAlike s ((s.fate parse env c).apply s c) c'
  outside : OutsideAlike wave c c'

/-- Waves with the same answers have the same effect on like contexts. -/
theorem WaveEffect.alike {env : Answers} {c' d' : DagContext}
    (hc : WaveEffect parse env wave c c') (hd : WaveEffect parse env wave d d') (h : SameContext c d) : SameContext c' d' := by
  have ho : ∀ s ∈ wave, OwnAlike s c' d' := by
    intro s hs
    have hf := fate_congr env (h.reads parse s)
    have hc' := hc.own s hs
    have hd' := hd.own s hs
    rw [hf] at hc'
    have ha := (s.fate parse env d).apply_alike (h.own s)
    exact hc'.symm.trans (ha.trans hd')
  refine ⟨hc.outside.input.symm.trans (h.input.trans hd.outside.input), fun k => ?_, fun n => ?_, fun n => ?_⟩
  · by_cases hk : ∃ s ∈ wave, k ∈ s.outputMapping.keys
    · obtain ⟨s, hs, hk⟩ := hk
      exact (ho s hs).context k hk
    · have hno : ∀ s ∈ wave, k ∉ s.outputMapping.keys := fun s hs hm => hk ⟨s, hs, hm⟩
      exact (hc.outside.context k hno).symm.trans ((h.context k).trans (hd.outside.context k hno))
  · by_cases hn : ∃ s ∈ wave, n = s.stepName
    · obtain ⟨s, hs, rfl⟩ := hn
      exact (ho s hs).result
    · have hno : ∀ s ∈ wave, n ≠ s.stepName := fun s hs heq => hn ⟨s, hs, heq⟩
      exact (hc.outside.results n hno).symm.trans ((h.results n).trans (hd.outside.results n hno))
  · by_cases hn : ∃ s ∈ wave, n = s.stepName
    · obtain ⟨s, hs, rfl⟩ := hn
      exact (ho s hs).completed
    · have hno : ∀ s ∈ wave, n ≠ s.stepName := fun s hs heq => hn ⟨s, hs, heq⟩
      exact (hc.outside.completed n hno).symm.trans ((h.completed n).trans (hd.outside.completed n hno))

def waveSteps (steps : List DagStep) (wave : List String) : List DagStep := wave.filterMap (stepNamed steps)

section
variable (parse : String → Option Expr) (hasStore : Bool) (env : Answers) (saves : DagStep → Except PyErr Unit)
  (steps : List DagStep)

def Halts (wave : List DagStep) (c : DagContext) : Prop :=
  ∃ s ∈ wave, ∃ e, (s.fate parse env c).outcome hasStore saves s = .error e ∧ e.isException = true ∧
    s.onFailure = .abort

/-- The context that the waves lead to, and whether all of them were run. -/
inductive Meaning : DagContext → List (List String) → DagContext → Bool → Prop
  | finished {c : DagContext} : Meaning c [] c true
  | halted {c c' : DagContext} {wave : List String} {rest : List (List String)}
      (heffect : WaveEffect parse env (waveSteps steps wave) c c')
      (hhalts : Halts parse hasStore env saves (waveSteps steps wave) c) : Meaning c (wave :: rest) c' false
  | further {c c' d : DagContext} {wave : List String} {rest : List (List String)} {b : Bool}
      (heffect : WaveEffect parse env (waveSteps steps wave) c c')
      (hgo : ¬ Halts parse hasStore env saves (waveSteps steps wave) c) (hrest : Meaning c' rest d b) :
      Meaning c (wave :: rest) d b

variable {parse hasStore env saves steps}

theorem halts_congr {wave : List DagStep} {c d : DagContext} (h : SameContext c d) :
    Halts parse hasStore env saves wave c ↔ Halts parse hasStore env saves wave d := by
  unfold Halts
  simp only [fun s : DagStep => fate_congr env (h.reads parse s)]

theorem Meaning.alike {c d c' d' : DagContext} {waves : List (List String)} {b b' : Bool}
    (hc : Meaning parse hasStore env saves steps c waves c' b) (hd : Meaning parse hasStore env saves steps d waves d' b')
    (h : SameContext c d) : SameContext c' d' ∧ b = b' := by
  induction hc generalizing d with
  | finished =>
    cases hd
    exact ⟨h, rfl⟩
  | halted he hh =>
    cases hd with
    | halted he' _ => exact ⟨he.alike he' h, rfl⟩
    | further _ hgo _ => exact absurd ((halts_congr h).mp hh) hgo
  | further he hgo _ ih =>
    cases hd with
    | halted _ hh => exact absurd ((halts_congr h).mpr hh) hgo
    | further he' _ hr => exact ih hr (he.alike he' h)

end

end AsyncScheduler
