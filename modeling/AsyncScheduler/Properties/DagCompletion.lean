import AsyncScheduler.Properties.StepRetries

/-!
# Completed runs

What the status of a finished run says about its steps.
-/

namespace AsyncScheduler
open List

open DagEngine (names dependencies topoSort)

/-- Dispatch calls return dicts or raise ordinary exceptions, the buffer is read with no other
exceptions, and deleting it succeeds. -/
def Signal.Ordinary : Signal → Prop
  | .reply (.ok v) => ∃ fields, v = .obj fields
  | .reply (.error e) => e.isException = true
  | .item _ (.reply (.error e)) => e.isException = true
  | .stream (.reply (.error e) _) => e.isException = true
  | .stream (.popped (.error e) _) => e.isException = true
  | .stream (.deleted outcome) => outcome = .ok ()
  | _ => True

/-- A step can be trusted with a failure when a fallback policy comes with a fallback. -/
def DagStep.Prepared (step : DagStep) : Prop := step.onFailure = .fallback → step.fallback ≠ none

instance (step : DagStep) : Decidable step.Prepared := inferInstanceAs (Decidable (_ → _))

/-- A dict, or an error that stops the run. -/
structure Settled (step : DagStep) (outcome : Except PyErr JsonValue) : Prop where
  value : ∀ v, outcome = .ok v → ∃ fields, v = .obj fields
  error : ∀ e, outcome = .error e → e.isException = true ∧ step.onFailure = .abort

def StreamPhase.Ordinary : StreamPhase → Prop
  | .closing e | .cleaning e => e.isException = true
  | _ => True

def StreamTurn.Settles (step : DagStep) : StreamTurn → Prop
  | .go ph _ => ph.Ordinary
  | .leave outcome _ => Settled step outcome

section
variable {setup : DagSetup} {step : DagStep}
variable {sh sh' : DagShared} {e : PyErr} {outcome : Except PyErr JsonValue} {ph' ph : Phase}

theorem settled_obj (step : DagStep) (fields : JsonObj) : Settled step (.ok (.obj fields)) :=
  ⟨fun v hv => ⟨fields, (Except.ok.inj hv).symm⟩, fun e he => by cases he⟩

theorem settled_resolve (hstep : step.Prepared) (he : e.isException = true) : Settled step (step.resolve e) := by
  cases hp : step.onFailure with
  | abort =>
    rw [resolve_raises (.inl hp)]
    refine ⟨fun v hv => (by cases hv), fun e' he' => ?_⟩
    rw [← Except.error.inj he']
    exact ⟨he, hp⟩
  | skip =>
    have hr : step.resolve e = .ok (.obj []) := by rw [DagStep.resolve, hp]
    rw [hr]
    exact settled_obj step []
  | fallback =>
    obtain ⟨f, hf⟩ := Option.ne_none_iff_exists'.mp (hstep hp)
    have hr : step.resolve e = .ok (.obj (f.outputMapping.entries.map fun e => (e.1, .str e.2))) := by
      rw [DagStep.resolve, hp, hf]
    rw [hr]
    exact settled_obj step _

theorem settled_conclude (hstep : step.Prepared)
    (h : (Signal.reply outcome).Ordinary) : Settled step (step.conclude outcome) := by
  cases outcome with
  | ok v =>
    obtain ⟨fields, rfl⟩ := h
    exact settled_obj step fields
  | error e =>
    have he : e.isException = true := h
    rw [DagStep.conclude, if_pos he]
    exact settled_resolve hstep he

theorem settled_collect (hstep : step.Prepared) (tasks : List MapItem) : Settled step (step.collect tasks) := by
  unfold DagStep.collect
  split
  · next e he =>
    split
    · obtain ⟨t, -, hte⟩ := exists_of_findSome?_eq_some he
      refine settled_resolve hstep ?_
      unfold DagStep.itemError at hte
      split at hte
      · split at hte
        · next hex => rwa [← Option.some.inj hte]
        · cases hte
      · cases hte
    · exact settled_obj step _
  · exact settled_obj step _

theorem mapOutput_error {mapping : List (String × String)} {result : JsonValue} {target : JsonObj} (h : mapOutput mapping result target = .error e) : e.isException = true := by
  induction mapping generalizing target with
  | nil => cases h
  | cons m mapping ih =>
    rw [mapOutput, foldlM_cons] at h
    cases result with
    | obj fields => exact ih h
    | arr items =>
      dsimp only at h
      split at h
      · cases h
        rfl
      · exact ih h
    | str text =>
      dsimp only at h
      split at h
      · cases h
        rfl
      · exact ih h
    | _ =>
      cases h
      rfl

section
variable (hredis : setup.redis ≠ some .sync) (hstep : step.Prepared)
include hredis hstep

theorem settles_streamFail {e : PyErr} (he : e.isException = true) (sh : DagShared) :
    (setup.streamFail step e sh).Settles step := by
  unfold DagSetup.streamFail
  rw [if_neg (by simp [he])]
  split
  · exact settled_resolve hstep he
  · exact he
  · next hs => exact absurd hs hredis

theorem settles_streamClose {e : PyErr} (he : e.isException = true) (sh : DagShared) :
    (setup.streamClose step e sh).Settles step := by
  unfold DagSetup.streamClose
  split
  · exact settles_streamFail hredis hstep he sh
  · exact he
  · next hs => exact absurd hs hredis

theorem settles_streamLoop (received : Nat) (late : Bool) (sh : DagShared) :
    (setup.streamLoop step received late sh).Settles step := by
  unfold DagSetup.streamLoop
  split
  · exact settles_streamClose hredis hstep rfl sh
  · split
    · exact settles_streamClose hredis hstep rfl sh
    · trivial

theorem settles_streamFeed (trigger : StreamingTrigger) (input : JsonObj) (received : Nat)
    (chunk : JsonValue) (late : Bool) (sh : DagShared) (rest : List String) :
    (setup.streamFeed step trigger input received chunk late sh rest).Settles step := by
  cases rest with
  | nil => exact settles_streamLoop hredis hstep received late sh
  | cons ds rest => trivial

theorem settles_streamDone (trigger : StreamingTrigger) (fields : JsonObj) (sh : DagShared) :
    (setup.streamDone step trigger fields sh).Settles step := by
  unfold DagSetup.streamDone
  split
  · exact settles_streamFail hredis hstep rfl sh
  · split
    · next he => exact settles_streamFail hredis hstep (mapOutput_error he) sh
    · split
      · split
        · exact settles_streamFail hredis hstep rfl sh
        · trivial
      · exact settled_obj step _

theorem settles_streamRead (trigger : StreamingTrigger) (input : JsonObj) (received : Nat)
    {item : Except PyErr (Option String)} {late : Bool} (h : (Signal.stream (.popped item late)).Ordinary)
    (sh : DagShared) : (setup.streamRead step trigger input received item late sh).Settles step := by
  unfold DagSetup.streamRead
  split
  · next e he =>
    refine settles_streamFail hredis hstep ?_ sh
    cases hc : setup.redis with
    | none =>
      rw [hc] at he
      cases he
    | some client =>
      rw [hc] at he
      cases client with
      | asyncBlpop =>
        obtain rfl : item = .error e := he
        exact h
      | sync => exact absurd hc hredis
  · exact settles_streamFail hredis hstep rfl sh
  · unfold DagSetup.streamChunk
    split
    · split
      · exact settles_streamDone hredis hstep trigger _ sh
      · exact settles_streamFeed hredis hstep trigger input _ _ late sh _
    · exact settles_streamFail hredis hstep rfl sh

theorem settles_streamResume {trigger : StreamingTrigger} {input : JsonObj} {s : StreamSignal}
    {sp : StreamPhase} {sh : DagShared} {turn : StreamTurn} (hs : (Signal.stream s).Ordinary) (hsp : sp.Ordinary)
    (h : setup.streamResume step trigger input s sp sh = some turn) : turn.Settles step := by
  unfold DagSetup.streamResume at h
  split at h
  · next outcome late =>
    obtain rfl := Option.some.inj h
    cases outcome with
    | ok v => trivial
    | error e => exact settles_streamFail hredis hstep hs _
  · obtain rfl := Option.some.inj h
    exact settles_streamLoop hredis hstep 0 _ _
  · obtain rfl := Option.some.inj h
    exact settles_streamRead hredis hstep trigger input _ hs _
  · next outcome late received chunk ds rest =>
    obtain rfl := Option.some.inj h
    cases outcome with
    | ok v => exact settles_streamFeed hredis hstep trigger input received chunk late _ rest
    | error e =>
      have he : e.isException = true := hs
      simp only [DagSetup.streamFed, he, if_true]
      exact settles_streamFeed hredis hstep trigger input received chunk late _ rest
  · obtain rfl := Option.some.inj h
    obtain rfl : _ = Except.ok () := hs
    exact settled_obj step _
  · obtain rfl := Option.some.inj h
    obtain rfl : _ = Except.ok () := hs
    exact settles_streamFail hredis hstep hsp _
  · obtain rfl := Option.some.inj h
    obtain rfl : _ = Except.ok () := hs
    exact settled_resolve hstep hsp
  · cases h

end

def Phase.Counted (step : DagStep) (sh : DagShared) : Phase → Prop
  | .saving _ | .ended (.ok _) => sh.ctx.completedSteps.count step.stepName = 1
  | .ended (.error e) => sh.ctx.completedSteps.count step.stepName = 1 ∨
      e.isException = true ∧ step.onFailure = .abort
  | .streaming _ _ sp => sh.ctx.completedSteps.count step.stepName = 0 ∧ sp.Ordinary ∧ step.trigger ≠ none
  | _ => sh.ctx.completedSteps.count step.stepName = 0

theorem counted_leave (h : setup.leave step outcome sh = (ph', sh')) (hs : Settled step outcome)
    (hco : sh.ctx.completedSteps.count step.stepName = 0) : ph'.Counted step sh' := by
  rcases leave_cases h with ⟨e, hw, rfl, rfl⟩ | ⟨result, ctx, -, hr, hc⟩
  · rcases hw with he | ⟨result, hok, hr⟩
    · exact .inr (hs.error e he)
    · obtain ⟨fields, rfl⟩ := hs.value result hok
      obtain ⟨ctx', hct⟩ := record_obj step fields sh.ctx
      rw [hct] at hr
      cases hr
  · obtain ⟨context, -, rfl⟩ := record_eq_ok hr
    have ho : (sh.ctx.completedSteps ++ [step.stepName]).count step.stepName = 1 := by
      simp [count_append, hco]
    rcases hc with ⟨-, rfl, rfl⟩ | ⟨-, rfl, rfl⟩
    · exact ho
    · exact ho

theorem count_stream {trigger : StreamingTrigger} {input : JsonObj} {s : StreamSignal}
    {sp : StreamPhase} {turn : StreamTurn} {name : String}
    (h : setup.streamResume step trigger input s sp sh = some turn) :
    turn.shared.ctx.completedSteps.count name = sh.ctx.completedSteps.count name := by
  rcases (streamResume_effect h).2 with hc | ⟨_, _, ds, _, v, -, hc⟩
  · rw [hc]
  · rw [hc, (accumulate_fields sh.ctx ds v).2.2.2]

/-- A step is counted as completed once when it has recorded a result or was skipped, and not before. -/
theorem StepTurn.counted (hredis : setup.redis ≠ some .sync ∨ step.trigger = none) (hstep : step.Prepared)
    {signal : Signal} (hs : signal.Ordinary)
    (h : StepTurn setup step signal ph sh ph' sh') (hph : ph.Counted step sh) : ph'.Counted step sh' := by
  cases h with
  | skip _ =>
    have hc : sh.ctx.completedSteps.count step.stepName = 0 := hph
    change (sh.ctx.completedSteps ++ [step.stepName]).count step.stepName = 1
    simp [count_append, hc]
  | start _ | acquire | scatter _ => exact hph
  | connect _ ht => exact ⟨hph, trivial, by simp [ht]⟩
  | pass _ _ ho => exact counted_leave ho (settled_obj step []) hph
  | call _ _ | again | retry _ => exact hph
  | answer _ ho => exact counted_leave ho (settled_conclude hstep hs) hph
  | item htu =>
    obtain ⟨t, t', -, hon, -⟩ := Crew.turn_tasks htu
    change sh'.ctx.completedSteps.count step.stepName = 0
    rw [ctx_mapOne hon]
    exact hph
  | gathered _ ho => exact counted_leave ho (settled_collect hstep _) hph
  | streamGo hst =>
    obtain ⟨hc, hsp, ht⟩ := hph
    have hse := settles_streamResume (hredis.resolve_right ht) hstep hs hsp hst
    exact ⟨(count_stream hst).trans hc, hse, ht⟩
  | streamLeave hst ho =>
    obtain ⟨hc, hsp, ht⟩ := hph
    have hse := settles_streamResume (hredis.resolve_right ht) hstep hs hsp hst
    exact counted_leave ho hse ((count_stream hst).trans hc)
  | @saved result outcome _ =>
    cases outcome with
    | ok _ => exact hph
    | error e => exact .inl hph

theorem Phase.Counted.congr (h : ph.Counted step sh)
    (hc : sh'.ctx.completedSteps.count step.stepName = sh.ctx.completedSteps.count step.stepName) :
    ph.Counted step sh' := by
  cases ph with
  | saving v => exact hc.trans h
  | streaming trigger input sp => exact ⟨hc.trans h.1, h.2⟩
  | ended outcome =>
    cases outcome with
    | ok v => exact hc.trans h
    | error e => exact h.imp_left hc.trans
  | _ => exact hc.trans h

end

theorem StepTurn.count_other {setup : DagSetup} {step : DagStep} {signal : Signal} {ph ph' : Phase}
    {sh sh' : DagShared} (h : StepTurn setup step signal ph sh ph' sh') {name : String} (hne : name ≠ step.stepName) :
    sh'.ctx.completedSteps.count name = sh.ctx.completedSteps.count name := by
  have ho : [step.stepName].count name = 0 := count_eq_zero.mpr (by simpa using hne)
  rcases h.fields.2.2.2 with heq | heq
  · rw [heq]
  · rw [heq, count_append, ho, Nat.add_zero]

section
variable {setup : DagSetup} {dag : DagDefinition} {initial : JsonObj} {r : DagRun}
variable {A : StepTask → Signal → Prop}

/-- `StepTurn.counted` at every moment of a run. -/
theorem reaches_counted (hp : ∀ s ∈ dag.steps, s.Prepared)
    (hredis : setup.redis ≠ some .sync ∨ ∀ s ∈ dag.steps, s.trigger = none)
    (h : setup.Reaches (fun _ signal => signal.Ordinary) dag initial r) :
    ∀ t ∈ r.all (setup.engine dag.steps), t.phase.Counted t.step r.shared := by
  intro t ht
  refine (reaches_tasks (P := fun t sh => t.step ∈ dag.steps ∧ t.phase.Counted t.step sh) h ?_ ?_ ?_ t ht).2
  · intro ctx hc s hs
    obtain ⟨-, -, -, hn, -⟩ := newContext_eq_ok hc
    refine ⟨hs, ?_⟩
    change ctx.completedSteps.count s.stepName = 0
    rw [hn]
    rfl
  · intro signal step ph sh ph' sh' hs hP htu
    exact ⟨hP.1, htu.counted (hredis.imp_right fun hn => hn step hP.1) (hp step hP.1) hs hP.2⟩
  · intro signal step ph sh ph' sh' u _ _ hne hPu htu
    exact ⟨hPu.1, hPu.2.congr (htu.count_other hne)⟩

theorem count_unscheduled (h : setup.Reaches A dag initial r) {name : String}
    (hn : name ∉ (topoSort dag.steps).flatten) : r.shared.ctx.completedSteps.count name = 0 := by
  refine reaches_shared (I := fun sh => sh.ctx.completedSteps.count name = 0) h ?_ ?_
  · intro ctx hct
    obtain ⟨-, -, -, hno, -⟩ := newContext_eq_ok hct
    rw [hno]
    rfl
  · intro signal step ph sh ph' sh' _ hstep _ ht hc
    rw [ht.count_other fun heq : name = step.stepName => hn (heq ▸ hstep)]
    exact hc

theorem result_status {ctx : DagContext} (h : r.result = some ctx) :
    ∃ completed, r.verdict = some completed ∧ ctx.completedSteps = r.shared.ctx.completedSteps ∧
      ctx.status = if completed then .completed else .failed := by
  obtain ⟨completed, hv, rfl⟩ := Option.map_eq_some_iff.mp h
  exact ⟨completed, hv, rfl, rfl⟩

theorem completed_tasks (h : setup.Reaches A dag initial r) (hv : r.verdict = some true) :
    ∀ t ∈ r.all (setup.engine dag.steps), t.phase.isEnded = true ∧ DagSetup.stops t = false := by
  obtain ⟨he, hto, hgo⟩ := reaches_judged h true hv
  obtain ⟨start, hs, hr⟩ := h
  obtain ⟨ctx, -, rfl⟩ := execute_eq_ok hs
  have hp := ForkJoin.reach_past hr (by cases topoSort dag.steps <;> exact fun u hu => absurd hu not_mem_nil)
  intro t ht
  rw [ForkJoin.State.all, hto, flatMap_nil, append_nil] at ht
  rcases mem_append.mp ht with ht | ht
  · exact hp t ht
  · exact ⟨he t ht, hgo t ht⟩

end

/-- A finished run is completed or failed. When every fallback policy has its fallback and nothing
raises but ordinary exceptions, a completed run has marked every step exactly once if and only if
no step depends on an unknown step or on a cycle. -/
theorem completed_iff_acyclic (setup : DagSetup) (dag : DagDefinition) (initial : JsonObj)
    (hdistinct : (names dag.steps).Nodup) (hprepared : ∀ s ∈ dag.steps, s.Prepared)
    (hredis : setup.redis ≠ some .sync ∨ ∀ s ∈ dag.steps, s.trigger = none) (r : DagRun)
    (h : setup.Reaches (fun _ signal => signal.Ordinary) dag initial r) (ctx : DagContext)
    (hresult : r.result = some ctx) :
    (ctx.status = .completed ∨ ctx.status = .failed) ∧
    (ctx.status = .completed → ((∀ s ∈ dag.steps, ctx.completedSteps.count s.stepName = 1) ↔
      ∀ s ∈ dag.steps, ∀ y, Relation.TransGen (Needs (dependencies dag.steps)) s.stepName y →
        y ∈ names dag.steps ∧ ¬ Relation.TransGen (Needs (dependencies dag.steps)) y y)) := by
  have hsc : ∀ s ∈ dag.steps, s.stepName ∈ (topoSort dag.steps).flatten ↔
      ∀ y, Relation.TransGen (Needs (dependencies dag.steps)) s.stepName y →
        y ∈ names dag.steps ∧ ¬ Relation.TransGen (Needs (dependencies dag.steps)) y y := by
    intro s hs
    rw [(DagEngine.topoSort_levels hdistinct).2, exists_upTo_iff]
    exact and_iff_right (List.mem_map_of_mem hs)
  obtain ⟨completed, hv, hco, hst⟩ := result_status hresult
  rw [hco, hst]
  cases completed with
  | false => exact ⟨.inr rfl, fun hno => by cases hno⟩
  | true =>
    refine ⟨.inl rfl, fun _ => ⟨fun hal s hs => ?_, fun hal s hs => ?_⟩⟩
    · rw [← hsc s hs]
      by_contra hn
      have hz := count_unscheduled h hn
      rw [hal s hs] at hz
      cases hz
    · have hn := (hsc s hs).mpr (hal s hs)
      rw [← names_all h] at hn
      obtain ⟨t, ht, hsa⟩ := List.mem_map.mp hn
      obtain ⟨hen, hgo⟩ := completed_tasks h hv t ht
      have hc := reaches_counted hprepared hredis h t ht
      obtain ⟨outcome, hph⟩ := Phase.exists_of_isEnded hen
      rw [← hsa]
      rw [hph] at hc
      cases outcome with
      | ok v => exact hc
      | error e =>
        rcases hc with ho | ⟨he, ha⟩
        · exact ho
        · simp [DagSetup.stops, hph, he, ha] at hgo

theorem completed_iff_acyclic_mapAfterRetry : ∃ r ctx, mapAfterRetryRun = some r ∧ r.result = some ctx ∧
    ctx.status = .completed ∧ ∀ s ∈ mapAfterRetry.steps, ctx.completedSteps.count s.stepName = 1 := by
  have hru : mapAfterRetryRun.map (fun r => r.result.map DagContext.status) = some (some .completed) := by decide +kernel
  obtain ⟨r, hr, hres⟩ := Option.map_eq_some_iff.mp hru
  obtain ⟨ctx, hc, hst⟩ := Option.map_eq_some_iff.mp hres
  have hord : ∀ m ∈ mapAfterRetryMoves, ∀ j i, m = .turn j i → i.Ordinary := by
    simp [mapAfterRetryMoves, oneCall, Signal.Ordinary, PyErr.isException]
  have hno : ∀ y, ¬ Relation.TransGen (Needs (dependencies mapAfterRetry.steps)) "a" y := by
    intro y hy
    obtain ⟨z, hz, -⟩ := Relation.TransGen.head'_iff.mp hy
    exact absurd hz List.not_mem_nil
  refine ⟨r, ctx, hr, hc, hst, ?_⟩
  refine ((completed_iff_acyclic {} mapAfterRetry _ (by decide) (by decide) (.inl (by decide)) r
    (reaches_of_after hr fun j i _ hm => hord _ hm j i rfl) ctx hc).2 hst).mpr fun s hs y hy => ?_
  simp only [mapAfterRetry, List.mem_cons, List.not_mem_nil, or_false] at hs
  rcases hs with rfl | rfl
  · exact absurd hy (hno y)
  · -- The only step before it is the first one
    obtain ⟨z, hz, hzy⟩ := Relation.TransGen.head'_iff.mp hy
    obtain rfl : z = "a" := List.mem_singleton.mp hz
    rcases Relation.reflTransGen_iff_eq_or_transGen.mp hzy with rfl | hay
    · exact ⟨by decide, hno _⟩
    · exact absurd hay (hno y)

def cyclicDag : DagDefinition :=
  { dagId := "d"
    steps := [{ stepName := "a", capability := "gpu", dependsOn := ["b"] },
      { stepName := "b", capability := "gpu", dependsOn := ["a"] }] }

def unpreparedDag : DagDefinition :=
  { dagId := "d", steps := [{ stepName := "a", capability := "gpu", onFailure := .fallback }] }

/-- A cycle completes at once; a step that asks for a fallback it does not have raises its error, and
the run completes without it. -/
theorem completed_without_running :
    ((DagSetup.after {} cyclicDag [] []).bind DagRun.result).map (fun ctx => (ctx.status, ctx.completedSteps)) =
      some (.completed, []) ∧
    ((DagSetup.after {} unpreparedDag [] (oneCall 0 (.error (.timeoutError "")) ++ [.gathered])).bind
      DagRun.result).map (fun ctx => (ctx.status, ctx.completedSteps)) = some (.completed, []) := by
  constructor <;> decide +kernel

end AsyncScheduler
