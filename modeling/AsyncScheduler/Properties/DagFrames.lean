import AsyncScheduler.Properties.DagHistory

/-!
# What a step reads and writes

The keys of the context that a step can write are those of its output mapping, and for a streaming
step the lists of results of its downstream steps.
-/

namespace AsyncScheduler
open List JsonValue

variable {k : String} {mapping : List (String × String)} {target context : JsonObj} {p : String}

open DagEngine (names topoSort)

theorem mapOutput_other {result : JsonValue} (h : mapOutput mapping result target = .ok context)
    (hk : k ∉ mapping.map Prod.fst) : context.lookup k = target.lookup k := by
  induction mapping generalizing target with
  | nil =>
    obtain rfl := Except.ok.inj h
    rfl
  | cons m mapping ih =>
    rw [map_cons, mem_cons, not_or] at hk
    rw [mapOutput, foldlM_cons] at h
    cases result with
    | obj fields =>
      refine (ih h hk.2).trans ?_
      cases fields.lookup m.2 with
      | none => rfl
      | some v =>
        change (JsonValue.assign target m.1 v).lookup k = target.lookup k
        rw [lookup_assign, if_neg hk.1]
    | arr items =>
      dsimp only at h
      split at h
      · cases h
      · exact ih h hk.2
    | str text =>
      dsimp only at h
      split at h
      · cases h
      · exact ih h hk.2
    | _ => cases h

theorem mapOutput_mem {fields : JsonObj}
    (hd : (mapping.map Prod.fst).Nodup) (h : mapOutput mapping (.obj fields) target = .ok context)
    {f : String} {v : JsonValue} (hk : (k, f) ∈ mapping) (hv : fields.lookup f = some v) :
    context.lookup k = some v := by
  induction mapping generalizing target with
  | nil => cases hk
  | cons m mapping ih =>
    obtain ⟨hf, hr⟩ := nodup_cons.mp hd
    have h : mapOutput mapping (.obj fields) (((fields.lookup m.2).map (JsonValue.assign target m.1)).getD target) =
      .ok context := h
    rcases mem_cons.mp hk with rfl | hk
    · rw [mapOutput_other h hf, hv]
      change (JsonValue.assign target k v).lookup k = some v
      rw [lookup_assign, if_pos rfl]
    · exact ih hr h hk

theorem lookup_mapInput_other (source : String → JsonValue) {entries : List (String × String)}
    {input : JsonObj} (hp : p ∉ entries.map Prod.fst) :
    (entries.foldl (fun input e =>
      if source e.2 = .null then input else JsonValue.assign input e.1 (source e.2)) input).lookup p =
      input.lookup p := by
  induction entries generalizing input with
  | nil => rfl
  | cons e entries ih =>
    rw [map_cons, mem_cons, not_or] at hp
    rw [foldl_cons, ih hp.2]
    split
    · rfl
    · rw [lookup_assign, if_neg hp.1]

theorem lookup_buildInput (step : DagStep) (ctx : DagContext) (h : (p, k) ∈ step.inputMapping.entries) :
    (step.buildInput ctx).lookup p =
      if ctx.source k = .null then ctx.inputData.lookup p else some (ctx.source k) := by
  have hd := step.inputMapping.distinct
  unfold DagStep.buildInput
  generalize ctx.inputData = input
  generalize step.inputMapping.entries = entries at h hd ⊢
  induction entries generalizing input with
  | nil => cases h
  | cons e entries ih =>
    obtain ⟨hf, hr⟩ := nodup_cons.mp hd
    rw [foldl_cons]
    rcases mem_cons.mp h with rfl | h
    · rw [lookup_mapInput_other ctx.source hf]
      split
      · rfl
      · rw [lookup_assign, if_pos rfl]
    · have hne : p ≠ e.1 := by
        rintro rfl
        exact hf (mem_map.mpr ⟨(e.1, k), h, rfl⟩)
      rw [ih _ h hr]
      split
      · split
        · rfl
        · rw [lookup_assign, if_neg hne]
      · rfl

def StreamTurn.feeds : StreamTurn → Prop
  | .go (.feeding _ _ _ _) _ => True
  | _ => False

namespace DagSetup
variable (setup : DagSetup) (step : DagStep) (trigger : StreamingTrigger) (input : JsonObj)
variable {sh : DagShared} {n : Nat} {chunk : JsonValue} {sh' : DagShared} {rest : List String} {ds : String}

theorem not_feeds_streamFail (e : PyErr) (sh : DagShared) : ¬ (setup.streamFail step e sh).feeds := by
  unfold streamFail
  split
  · exact id
  · split <;> exact id

theorem not_feeds_streamClose (e : PyErr) (sh : DagShared) : ¬ (setup.streamClose step e sh).feeds := by
  unfold streamClose
  split
  · exact not_feeds_streamFail setup step e sh
  · exact id
  · exact not_feeds_streamFail setup step _ sh

theorem not_feeds_streamLoop (received : Nat) (late : Bool) (sh : DagShared) :
    ¬ (setup.streamLoop step received late sh).feeds := by
  unfold streamLoop
  split
  · exact not_feeds_streamClose setup step _ sh
  · split
    · exact not_feeds_streamClose setup step _ sh
    · exact id

theorem not_feeds_streamDone (fields : JsonObj) (sh : DagShared) :
    ¬ (setup.streamDone step trigger fields sh).feeds := by
  unfold streamDone
  split
  · exact not_feeds_streamFail setup step _ sh
  · split
    · exact not_feeds_streamFail setup step _ sh
    · split
      · split
        · exact not_feeds_streamFail setup step _ sh
        · exact id
      · exact id

theorem streamFeed_feeds {received : Nat} {c : JsonValue} {late : Bool} {downs : List String}
    (h : setup.streamFeed step trigger input received chunk late sh downs = .go (.feeding n c ds rest) sh') :
    downs = ds :: rest := by
  cases downs with
  | nil =>
    refine absurd ?_ (not_feeds_streamLoop setup step received late sh)
    rw [streamFeed] at h
    rw [h]
    trivial
  | cons d downs =>
    rw [streamFeed] at h
    cases h
    rfl

theorem streamResume_feeds {s : StreamSignal} {sp : StreamPhase}
    (h : setup.streamResume step trigger input s sp sh = some (.go (.feeding n chunk ds rest) sh')) :
    trigger.downstreamSteps = ds :: rest ∨ ∃ m c d, sp = .feeding m c d (ds :: rest) := by
  have hno : ∀ turn : StreamTurn, ¬ turn.feeds → some turn ≠ some (.go (.feeding n chunk ds rest) sh') := by
    rintro turn ht heq
    rw [Option.some.inj heq] at ht
    exact ht trivial
  unfold streamResume at h
  split at h
  · split at h
    · cases h
    · exact absurd h (hno _ (not_feeds_streamFail setup step _ _))
  · exact absurd h (hno _ (not_feeds_streamLoop setup step _ _ _))
  · unfold streamRead at h
    split at h
    · exact absurd h (hno _ (not_feeds_streamFail setup step _ _))
    · exact absurd h (hno _ (not_feeds_streamFail setup step _ _))
    · unfold streamChunk at h
      split at h
      · split at h
        · exact absurd h (hno _ (not_feeds_streamDone setup step trigger _ _))
        · exact .inl (streamFeed_feeds setup step trigger input (Option.some.inj h))
      · exact absurd h (hno _ (not_feeds_streamFail setup step _ _))
  · next m c d tail =>
    refine .inr ⟨m, c, d, ?_⟩
    unfold streamFed at h
    split at h
    · rw [streamFeed_feeds setup step trigger input (Option.some.inj h)]
    · split at h
      · rw [streamFeed_feeds setup step trigger input (Option.some.inj h)]
      · cases h
  · split at h
    · cases h
    · exact absurd h (hno _ (not_feeds_streamFail setup step _ _))
  · split at h
    · exact absurd h (hno _ (not_feeds_streamFail setup step _ _))
    · exact absurd h (hno _ (not_feeds_streamFail setup step _ _))
  · split at h
    · cases h
    · cases h
  · cases h

end DagSetup

/-- A streaming phase is that of the trigger of its step, and what it feeds are downstream steps. -/
def Phase.Wired (step : DagStep) : Phase → Prop
  | .streaming trigger _ (.feeding _ _ ds rest) => step.trigger = some trigger ∧ ∀ d ∈ ds :: rest, d ∈ trigger.downstreamSteps
  | .streaming trigger _ _ => step.trigger = some trigger
  | _ => True

section
variable {setup : DagSetup} {step : DagStep} {signal : Signal} {ph ph' : Phase} {sh sh' : DagShared}

theorem Phase.Wired.trigger {trigger : StreamingTrigger} {input : JsonObj} {sp : StreamPhase}
    (h : (Phase.streaming trigger input sp).Wired step) : step.trigger = some trigger := by
  cases sp with
  | feeding _ _ _ _ => exact h.1
  | _ => exact h

theorem wired_leave {outcome : Except PyErr JsonValue} (h : setup.leave step outcome sh = (ph', sh')) :
    ph'.Wired step := by
  rcases leave_cases h with ⟨e, -, rfl, -⟩ | ⟨result, ctx, -, -, ⟨-, rfl, -⟩ | ⟨-, rfl, -⟩⟩ <;> trivial

theorem StepTurn.wired (h : StepTurn setup step signal ph sh ph' sh') (hph : ph.Wired step) : ph'.Wired step := by
  cases h with
  | connect _ ht => exact ht
  | pass _ _ ho => exact wired_leave ho
  | answer _ ho => exact wired_leave ho
  | gathered _ ho => exact wired_leave ho
  | streamLeave _ ho => exact wired_leave ho
  | @streamGo trigger input sp sp' s _ _ hs =>
    cases sp' with
    | feeding n chunk ds rest =>
      refine ⟨hph.trigger, fun d hd => ?_⟩
      rcases setup.streamResume_feeds step trigger input hs with ha | ⟨m, c, d', rfl⟩
      · rw [ha]
        exact hd
      · exact hph.2 d (mem_cons_of_mem d' hd)
    | _ => exact hph.trigger
  | _ => trivial

theorem reaches_wired {A : StepTask → Signal → Prop} {dag : DagDefinition} {initial : JsonObj}
    {r : DagRun} (h : setup.Reaches A dag initial r) : ∀ t ∈ r.all (setup.engine dag.steps), t.phase.Wired t.step :=
  reaches_own (P := fun step ph _ => ph.Wired step) h (fun _ _ _ _ _ hP => hP) (fun _ _ => trivial)
    fun _ _ _ _ _ _ _ _ hP ht => ht.wired hP

def DagStep.written (step : DagStep) : List String :=
  step.outputMapping.keys ++
    ((step.trigger.map fun trigger => trigger.downstreamSteps.map ("_streaming_results_" ++ ·)).getD [])

theorem accumulate_other (ctx : DagContext) {ds k : String} (v : JsonValue) (hk : k ≠ "_streaming_results_" ++ ds) :
    (ctx.accumulate ds v).context.lookup k = ctx.context.lookup k := by
  unfold DagContext.accumulate
  dsimp only
  split
  · exact (lookup_assign _ _ _ k).trans (if_neg hk)
  · rfl

/-- A turn writes only the context keys its step is declared to write. -/
theorem StepTurn.context_other (h : StepTurn setup step signal ph sh ph' sh') (hph : ph.Wired step) {k : String}
    (hk : k ∉ step.written) : sh'.ctx.context.lookup k = sh.ctx.context.lookup k := by
  obtain ⟨mid, hmi, hc⟩ := h.ctx_cases
  have hs : mid.context.lookup k = sh.ctx.context.lookup k := by
    rcases hmi with rfl | ⟨trigger, input, n, chunk, ds, rest, v, rfl, rfl⟩
    · rfl
    · refine accumulate_other sh.ctx v fun heq => hk ?_
      obtain ⟨ht, hd⟩ := hph
      simp only [DagStep.written, ht, Option.map_some, Option.getD_some, mem_append, mem_map]
      exact .inr ⟨ds, hd ds mem_cons_self, heq.symm⟩
  rcases hc with heq | ⟨-, -, -, heq⟩ | ⟨result, hr, -, -⟩
  · rw [heq, hs]
  · rw [heq]
    exact hs
  · obtain ⟨context, hm, heq⟩ := record_eq_ok hr
    rw [heq, ← hs]
    exact mapOutput_other hm fun hme => hk (mem_append_left _ hme)

end

end AsyncScheduler
