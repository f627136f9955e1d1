import AsyncScheduler.Platform.DagRun

/-!
# The turns of a step

Everything that one turn of a step can do, as a relation with one case for each kind of turn.
-/

namespace AsyncScheduler
open List

variable {step : DagStep} {coll : String} {input : JsonObj} {s : ItemSignal} {t t' : MapItem}
  {sh sh' : DagShared}

def DagStep.conclude (step : DagStep) : Except PyErr JsonValue → Except PyErr JsonValue
  | .ok v => .ok v
  | .error e => if e.isException then step.resolve e else .error e

def DagStep.retries (step : DagStep) (attempt : Nat) : Except PyErr JsonValue → Bool
  | .ok _ => false
  | .error e => e.isException && attempt + 1 < step.attempts

inductive StepTurn (setup : DagSetup) (step : DagStep) :
    Signal → Phase → DagShared → Phase → DagShared → Prop
  | skip {sh : DagShared} (h : step.skipped setup.parse sh.ctx = true) :
      StepTurn setup step .go .created sh (.ended (.ok (.obj [])))
        (({ sh with ctx := { sh.ctx with completedSteps := sh.ctx.completedSteps ++ [step.stepName] } } :
          DagShared).note (.ended step.stepName (.ok (.obj []))))
  | start {sh : DagShared} (h : step.skipped setup.parse sh.ctx = false) :
      StepTurn setup step .go .created sh (.waiting (step.buildInput sh.ctx)) sh
  | acquire {input : JsonObj} {sh : DagShared} :
      StepTurn setup step .go (.waiting input) sh (.inside input) sh
  | scatter {coll : String} {input : JsonObj} {sh : DagShared} (h : step.mapKey = some coll) :
      StepTurn setup step .go (.inside input) sh
        (.mapping coll input (step.mapPool (DagStep.mapItems coll input sh.ctx)))
        (sh.note (.mapped step.stepName (DagStep.mapItems coll input sh.ctx)))
  | connect {trigger : StreamingTrigger} {input : JsonObj} {sh : DagShared}
      (hmap : step.mapKey = none) (h : step.trigger = some trigger) :
      StepTurn setup step .go (.inside input) sh (.streaming trigger input .opening)
        (sh.note (.called step.stepName
          (.dispatch step.capability step.stepName (DagSetup.enriched trigger input sh))))
  | pass {input : JsonObj} {sh sh' : DagShared} {ph' : Phase} (hnormal : step.Normal)
      (hzero : step.attempts = 0) (h : setup.leave step (.ok (.obj [])) sh = (ph', sh')) :
      StepTurn setup step .go (.inside input) sh ph' sh'
  | call {input : JsonObj} {sh : DagShared} (hnormal : step.Normal) (hpos : 0 < step.attempts) :
      StepTurn setup step .go (.inside input) sh (.calling input 0)
        (sh.note (.called step.stepName (step.request input)))
  | again {input : JsonObj} {n : Nat} {sh : DagShared} :
      StepTurn setup step .go (.sleeping input n) sh (.calling input n)
        (sh.note (.called step.stepName (step.request input)))
  | retry {input : JsonObj} {n : Nat} {outcome : Except PyErr JsonValue} {sh : DagShared}
      (h : step.retries n outcome = true) :
      StepTurn setup step (.reply outcome) (.calling input n) sh (.sleeping input (n + 1))
        (sh.note (.replied step.stepName none outcome))
  | answer {input : JsonObj} {n : Nat} {outcome : Except PyErr JsonValue} {sh sh' : DagShared}
      {ph' : Phase} (hlast : step.retries n outcome = false)
      (h : setup.leave step (step.conclude outcome) (sh.note (.replied step.stepName none outcome)) = (ph', sh')) :
      StepTurn setup step (.reply outcome) (.calling input n) sh ph' sh'
  | item {coll : String} {input : JsonObj} {pool pool' : Pool MapItem} {i : Nat} {s : ItemSignal}
      {sh sh' : DagShared} (h : (step.mapCrew coll input).turn i s pool sh = some (pool', sh')) :
      StepTurn setup step (.item i s) (.mapping coll input pool) sh (.mapping coll input pool') sh'
  | gathered {coll : String} {input : JsonObj} {pool : Pool MapItem} {sh sh' : DagShared}
      {ph' : Phase} (hall : ∀ t ∈ pool.tasks, (step.mapCrew coll input).ended t = true)
      (h : setup.leave step (step.collect pool.tasks) sh = (ph', sh')) :
      StepTurn setup step .go (.mapping coll input pool) sh ph' sh'
  | streamGo {trigger : StreamingTrigger} {input : JsonObj} {ph ph' : StreamPhase}
      {s : StreamSignal} {sh sh' : DagShared}
      (h : setup.streamResume step trigger input s ph sh = some (.go ph' sh')) :
      StepTurn setup step (.stream s) (.streaming trigger input ph) sh (.streaming trigger input ph') sh'
  | streamLeave {trigger : StreamingTrigger} {input : JsonObj} {ph : StreamPhase} {ph' : Phase}
      {s : StreamSignal} {outcome : Except PyErr JsonValue} {sh mid sh' : DagShared}
      (hs : setup.streamResume step trigger input s ph sh = some (.leave outcome mid))
      (h : setup.leave step outcome mid = (ph', sh')) :
      StepTurn setup step (.stream s) (.streaming trigger input ph) sh ph' sh'
  | saved {result : JsonValue} {outcome : Except PyErr Unit} {sh : DagShared} :
      StepTurn setup step (.saved outcome) (.saving result) sh (.ended (outcome.map fun _ => result))
        (sh.note (.ended step.stepName (outcome.map fun _ => result)))

variable {setup : DagSetup} {signal : Signal} {ph ph' : Phase}

section
variable {input : JsonObj} {outcome : Except PyErr JsonValue}

theorem stepTurn_enter (h : setup.enter step input sh = (ph', sh')) :
    StepTurn setup step .go (.inside input) sh ph' sh' := by
  unfold DagSetup.enter at h
  split at h
  · next coll hm =>
    obtain ⟨rfl, rfl⟩ := Prod.mk.inj h
    exact .scatter hm
  · next hm =>
    split at h
    · next trigger ht =>
      obtain ⟨rfl, rfl⟩ := Prod.mk.inj h
      exact .connect hm ht
    · next ht =>
      split at h
      · next hz => exact .pass ⟨hm, ht⟩ hz h
      · next hpos =>
        obtain ⟨rfl, rfl⟩ := Prod.mk.inj h
        exact .call ⟨hm, ht⟩ (Nat.pos_of_ne_zero hpos)

theorem stepTurn_answered {n : Nat}
    (h : setup.answered step input n outcome (sh.note (.replied step.stepName none outcome)) = (ph', sh')) :
    StepTurn setup step (.reply outcome) (.calling input n) sh ph' sh' := by
  cases outcome with
  | ok v => exact .answer rfl h
  | error e =>
    rw [DagSetup.answered] at h
    by_cases he : e.isException = true
    · rw [if_neg (by simp [he])] at h
      split at h
      · next hn =>
        obtain ⟨rfl, rfl⟩ := Prod.mk.inj h
        exact .retry (by simp [DagStep.retries, he, hn])
      · next hn =>
        refine .answer (by simp [DagStep.retries, hn]) ?_
        rw [DagStep.conclude, if_pos he]
        exact h
    · rw [if_pos (by simp [he])] at h
      refine .answer (by simp [DagStep.retries, he]) ?_
      rw [DagStep.conclude, if_neg he]
      exact h

/-- The relation covers every turn of `_run_step`. -/
theorem stepTurn_of_runStep (h : setup.runStep step signal ph sh = some (ph', sh')) :
    StepTurn setup step signal ph sh ph' sh' := by
  unfold DagSetup.runStep at h
  split at h
  · split at h
    · next hs =>
      obtain ⟨rfl, rfl⟩ := Prod.mk.inj (Option.some.inj h)
      exact .skip hs
    · next hs =>
      obtain ⟨rfl, rfl⟩ := Prod.mk.inj (Option.some.inj h)
      exact .start (Bool.eq_false_iff.mpr hs)
  · obtain ⟨rfl, rfl⟩ := Prod.mk.inj (Option.some.inj h)
    exact .acquire
  · exact stepTurn_enter (Option.some.inj h)
  · exact stepTurn_answered (Option.some.inj h)
  · obtain ⟨rfl, rfl⟩ := Prod.mk.inj (Option.some.inj h)
    exact .again
  · obtain ⟨⟨pool', sh''⟩, ht, heq⟩ := Option.map_eq_some_iff.mp h
    obtain ⟨rfl, rfl⟩ := Prod.mk.inj heq
    exact .item ht
  · split at h
    · next ha => exact .gathered (all_eq_true.mp ha) (Option.some.inj h)
    · cases h
  · obtain ⟨turn, ht, heq⟩ := Option.map_eq_some_iff.mp h
    cases turn with
    | go ph₁ sh₁ =>
      obtain ⟨rfl, rfl⟩ := Prod.mk.inj heq
      exact .streamGo ht
    | leave outcome mid => exact .streamLeave ht heq
  · obtain ⟨rfl, rfl⟩ := Prod.mk.inj (Option.some.inj h)
    exact .saved
  · cases h

/-- Leaving the semaphore: an error ends the step, a result is recorded and saved. -/
theorem leave_cases (h : setup.leave step outcome sh = (ph', sh')) :
    (∃ e, (outcome = .error e ∨ ∃ result, outcome = .ok result ∧ step.record result sh.ctx = .error e) ∧
      ph' = .ended (.error e) ∧ sh' = sh.note (.ended step.stepName (.error e))) ∨
    ∃ result ctx, outcome = .ok result ∧ step.record result sh.ctx = .ok ctx ∧
      ((setup.hasStore = true ∧ ph' = .saving result ∧ sh' = { sh with ctx }) ∨
        (setup.hasStore = false ∧ ph' = .ended (.ok result) ∧
          sh' = ({ sh with ctx } : DagShared).note (.ended step.stepName (.ok result)))) := by
  cases outcome with
  | error e =>
    obtain ⟨rfl, rfl⟩ := Prod.mk.inj h
    exact .inl ⟨e, .inl rfl, rfl, rfl⟩
  | ok result =>
    cases hr : step.record result sh.ctx with
    | error e =>
      simp only [DagSetup.leave, hr] at h
      obtain ⟨rfl, rfl⟩ := Prod.mk.inj h
      exact .inl ⟨e, .inr ⟨result, rfl, hr⟩, rfl, rfl⟩
    | ok ctx =>
      refine .inr ⟨result, ctx, rfl, hr, ?_⟩
      simp only [DagSetup.leave, hr] at h
      cases hs : setup.hasStore with
      | true =>
        rw [hs, if_pos rfl] at h
        obtain ⟨rfl, rfl⟩ := Prod.mk.inj h
        exact .inl ⟨rfl, rfl, rfl⟩
      | false =>
        rw [hs, if_neg Bool.false_ne_true] at h
        obtain ⟨rfl, rfl⟩ := Prod.mk.inj h
        exact .inr ⟨rfl, rfl, rfl⟩

end

variable {steps : List DagStep}

theorem resume_eq_some {signal : Signal} {t t' : StepTask} {sh sh' : DagShared}
    (h : setup.resume signal t sh = some (t', sh')) :
    t'.step = t.step ∧ StepTurn setup t.step signal t.phase sh t'.phase sh' := by
  obtain ⟨⟨ph, sh''⟩, hr, heq⟩ := Option.map_eq_some_iff.mp h
  obtain ⟨rfl, rfl⟩ := Prod.mk.inj heq
  exact ⟨rfl, stepTurn_of_runStep hr⟩

theorem resume_ended (signal : Signal) (t : StepTask) (sh : DagShared) (h : t.phase.isEnded = true) :
    setup.resume signal t sh = none := by
  obtain ⟨step, ph⟩ := t
  cases ph with
  | ended outcome => cases signal <;> rfl
  | _ => cases h

theorem engine_fair : (setup.engine steps).Fair where
  spawned wave t ht := by
    obtain ⟨s, -, rfl⟩ := mem_map.mp ht
    rfl
  ended t ht := by
    obtain ⟨step, ph⟩ := t
    cases ph with
    | ended outcome => cases ht
    | _ => rfl
  final signal t sh h := resume_ended signal t sh h

theorem engine_label (signal : Signal) (t : StepTask) (sh : DagShared) (t' : StepTask) (sh' : DagShared)
    (h : (setup.engine steps).resume signal t sh = some (t', sh')) : t'.step = t.step :=
  (resume_eq_some h).1

def Tells (runner : String) (sh sh' : DagShared) : Prop :=
  ∃ events : List DagEvent, sh'.trace = sh.trace ++ events ∧
    ∀ e ∈ events, e.runner = runner ∧ ∀ outcome, e ≠ .ended runner outcome

namespace Tells
variable {runner : String} {sh sh' : DagShared}

theorem of_trace (h : sh'.trace = sh.trace) : Tells runner sh sh' :=
  ⟨[], by rw [h, append_nil], fun _ h => absurd h not_mem_nil⟩

theorem event {e : DagEvent} (h : sh'.trace = sh.trace ++ [e]) (hr : e.runner = runner)
    (he : ∀ outcome, e ≠ .ended runner outcome) : Tells runner sh sh' := by
  refine ⟨[e], h, fun f hf => ?_⟩
  rw [mem_singleton.mp hf]
  exact ⟨hr, he⟩

theorem called (sh : DagShared) (runner : String) (call : Call) : Tells runner sh (sh.note (.called runner call)) :=
  .event rfl rfl fun _ h => by cases h

theorem mapped (sh : DagShared) (runner : String) (items : List JsonValue) :
    Tells runner sh (sh.note (.mapped runner items)) :=
  .event rfl rfl fun _ h => by cases h

theorem replied (sh : DagShared) (runner : String) (index : Option Nat) (outcome : Except PyErr JsonValue) :
    Tells runner sh (sh.note (.replied runner index outcome)) :=
  .event rfl rfl fun _ h => by cases h

theorem trans {sh'' : DagShared} (h : Tells runner sh sh') (h' : Tells runner sh' sh'') : Tells runner sh sh'' := by
  obtain ⟨es, heq, hes⟩ := h
  obtain ⟨fs, heq', hfs⟩ := h'
  refine ⟨es ++ fs, by rw [heq', heq, append_assoc], fun e he => ?_⟩
  rcases mem_append.mp he with he | he
  · exact hes e he
  · exact hfs e he

end Tells

theorem tells_mapOne (h : step.mapOne coll input s t sh = some (t', sh')) : Tells step.stepName sh sh' := by
  unfold DagStep.mapOne at h
  split at h
  · obtain ⟨-, rfl⟩ := Prod.mk.inj (Option.some.inj h)
    exact .called sh step.stepName _
  · obtain ⟨-, rfl⟩ := Prod.mk.inj (Option.some.inj h)
    exact .replied sh step.stepName _ _
  · cases h

theorem ctx_mapOne (h : step.mapOne coll input s t sh = some (t', sh')) : sh'.ctx = sh.ctx := by
  unfold DagStep.mapOne at h
  split at h
  · obtain ⟨-, rfl⟩ := Prod.mk.inj (Option.some.inj h)
    rfl
  · obtain ⟨-, rfl⟩ := Prod.mk.inj (Option.some.inj h)
    rfl
  · cases h

def StreamTurn.shared : StreamTurn → DagShared
  | .go _ sh => sh
  | .leave _ sh => sh

namespace DagSetup
variable (setup : DagSetup) (step : DagStep) (trigger : StreamingTrigger) (input : JsonObj)

@[simp] theorem shared_streamFail (e : PyErr) (sh : DagShared) : (setup.streamFail step e sh).shared = sh := by
  unfold streamFail
  split
  · rfl
  · split <;> rfl

@[simp] theorem shared_streamClose (e : PyErr) (sh : DagShared) : (setup.streamClose step e sh).shared = sh := by
  unfold streamClose
  split
  · exact shared_streamFail setup step e sh
  · rfl
  · exact shared_streamFail setup step notAwaitable sh

@[simp] theorem shared_streamLoop (received : Nat) (late : Bool) (sh : DagShared) :
    (setup.streamLoop step received late sh).shared = sh := by
  unfold streamLoop
  split
  · exact shared_streamClose setup step _ sh
  · split
    · exact shared_streamClose setup step _ sh
    · rfl

@[simp] theorem shared_streamDone (fields : JsonObj) (sh : DagShared) :
    (setup.streamDone step trigger fields sh).shared = sh := by
  unfold streamDone
  split
  · exact shared_streamFail setup step _ sh
  · split
    · exact shared_streamFail setup step _ sh
    · split
      · split
        · exact shared_streamFail setup step _ sh
        · rfl
      · rfl

theorem shared_streamFeed (received : Nat) (chunk : JsonValue) (late : Bool) (sh : DagShared) (rest : List String) :
    (setup.streamFeed step trigger input received chunk late sh rest).shared.ctx = sh.ctx ∧
      Tells step.stepName sh (setup.streamFeed step trigger input received chunk late sh rest).shared := by
  cases rest with
  | nil =>
    rw [streamFeed, shared_streamLoop]
    exact ⟨rfl, .of_trace rfl⟩
  | cons ds rest => exact ⟨rfl, .called sh step.stepName _⟩

theorem shared_streamRead (received : Nat) (item : Except PyErr (Option String)) (late : Bool) (sh : DagShared) :
    (setup.streamRead step trigger input received item late sh).shared.ctx = sh.ctx ∧
      Tells step.stepName sh (setup.streamRead step trigger input received item late sh).shared := by
  unfold streamRead
  split
  · rw [shared_streamFail]
    exact ⟨rfl, .of_trace rfl⟩
  · rw [shared_streamFail]
    exact ⟨rfl, .of_trace rfl⟩
  · unfold streamChunk
    split
    · split
      · rw [shared_streamDone]
        exact ⟨rfl, .of_trace rfl⟩
      · exact shared_streamFeed setup step trigger input _ _ late sh _
    · rw [shared_streamFail]
      exact ⟨rfl, .of_trace rfl⟩

end DagSetup

section
variable {runner : String} {outcome : Except PyErr JsonValue}

theorem streamResume_effect {trigger : StreamingTrigger} {input : JsonObj} {s : StreamSignal}
    {sp : StreamPhase} {turn : StreamTurn} (h : setup.streamResume step trigger input s sp sh = some turn) :
    Tells step.stepName sh turn.shared ∧
      (turn.shared.ctx = sh.ctx ∨ ∃ received chunk ds rest v, sp = .feeding received chunk ds rest ∧
        turn.shared.ctx = sh.ctx.accumulate ds v) := by
  unfold DagSetup.streamResume at h
  split at h
  · next outcome _ =>
    obtain rfl := Option.some.inj h
    have ht := Tells.replied sh step.stepName none outcome
    cases outcome with
    | ok v => exact ⟨ht, .inl rfl⟩
    | error e =>
      rw [DagSetup.shared_streamFail]
      exact ⟨ht, .inl rfl⟩
  · obtain rfl := Option.some.inj h
    rw [DagSetup.shared_streamLoop]
    exact ⟨.of_trace rfl, .inl rfl⟩
  · obtain rfl := Option.some.inj h
    obtain ⟨hc, ht⟩ := setup.shared_streamRead step trigger input _ _ _ sh
    exact ⟨ht, .inl hc⟩
  · next outcome late received chunk ds rest =>
    obtain rfl := Option.some.inj h
    have hr := Tells.replied sh step.stepName none outcome
    cases outcome with
    | ok v =>
      obtain ⟨hc, ht⟩ := setup.shared_streamFeed step trigger input received chunk late
        { sh.note (.replied step.stepName none (.ok v)) with ctx := sh.ctx.accumulate ds v } rest
      exact ⟨(hr.trans (.of_trace rfl)).trans ht, .inr ⟨received, chunk, ds, rest, v, rfl, hc⟩⟩
    | error e =>
      unfold DagSetup.streamFed
      split
      · next heq => cases heq
      · next e' heq =>
        split
        · obtain ⟨hc, ht⟩ := setup.shared_streamFeed step trigger input received chunk late
            (sh.note (.replied step.stepName none (.error e))) rest
          exact ⟨hr.trans ht, .inl hc⟩
        · exact ⟨hr, .inl rfl⟩
  · next outcome result =>
    obtain rfl := Option.some.inj h
    cases outcome with
    | ok _ => exact ⟨.of_trace rfl, .inl rfl⟩
    | error e =>
      rw [DagSetup.shared_streamFail]
      exact ⟨.of_trace rfl, .inl rfl⟩
  · next outcome e =>
    obtain rfl := Option.some.inj h
    cases outcome <;> rw [DagSetup.shared_streamFail] <;> exact ⟨.of_trace rfl, .inl rfl⟩
  · next outcome e =>
    obtain rfl := Option.some.inj h
    cases outcome <;> exact ⟨.of_trace rfl, .inl rfl⟩
  · cases h

/-- The trace grows by events of the step that has its turn, and its end is told when it ends. -/
def TellsAll (runner : String) (ph' : Phase) (sh sh' : DagShared) : Prop :=
  ∃ events : List DagEvent, sh'.trace = sh.trace ++ events ∧ (∀ e ∈ events, e.runner = runner) ∧
    ∀ outcome, .ended runner outcome ∈ events ↔ ph' = .ended outcome

theorem Tells.tellsAll (h : Tells runner sh sh') (hph : ∀ outcome, ph' ≠ .ended outcome) :
    TellsAll runner ph' sh sh' := by
  obtain ⟨events, heq, hev⟩ := h
  refine ⟨events, heq, fun e he => (hev e he).1, fun outcome => ⟨fun he => ?_, fun heq => absurd heq (hph outcome)⟩⟩
  exact absurd rfl ((hev _ he).2 outcome)

theorem TellsAll.after {mid : DagShared} (h : Tells runner sh mid) (h' : TellsAll runner ph' mid sh') :
    TellsAll runner ph' sh sh' := by
  obtain ⟨es, heq, hes⟩ := h
  obtain ⟨fs, heq', hfs, hen⟩ := h'
  refine ⟨es ++ fs, by rw [heq', heq, append_assoc], fun e he => ?_, fun outcome => ?_⟩
  · rcases mem_append.mp he with he | he
    · exact (hes e he).1
    · exact hfs e he
  · rw [mem_append, hen outcome]
    constructor
    · rintro (he | he)
      · exact absurd rfl ((hes _ he).2 outcome)
      · exact he
    · exact .inr

theorem tellsAll_end
    (h : sh'.trace = sh.trace ++ [.ended runner outcome]) : TellsAll runner (.ended outcome) sh sh' := by
  refine ⟨[.ended runner outcome], h, fun e he => by rw [mem_singleton.mp he]; rfl, fun o => ?_⟩
  rw [mem_singleton]
  constructor
  · intro heq
    cases heq
    rfl
  · intro heq
    cases heq
    rfl

theorem tellsAll_leave (h : setup.leave step outcome sh = (ph', sh')) : TellsAll step.stepName ph' sh sh' := by
  rcases leave_cases h with ⟨e, -, rfl, rfl⟩ | ⟨result, ctx, -, -, ⟨-, rfl, rfl⟩ | ⟨-, rfl, rfl⟩⟩
  · exact tellsAll_end rfl
  · exact (Tells.of_trace rfl).tellsAll fun _ h => by cases h
  · exact tellsAll_end rfl

/-- A turn tells of its own step alone, and of its end when it ends. -/
theorem StepTurn.tellsAll (h : StepTurn setup step signal ph sh ph' sh') : TellsAll step.stepName ph' sh sh' := by
  cases h with
  | skip _ => exact tellsAll_end rfl
  | start _ | acquire => exact (Tells.of_trace rfl).tellsAll fun _ h => by cases h
  | scatter _ => exact (Tells.mapped sh step.stepName _).tellsAll fun _ h => by cases h
  | connect _ _ => exact (Tells.called sh step.stepName _).tellsAll fun _ h => by cases h
  | pass _ _ hl => exact tellsAll_leave hl
  | call _ _ | again => exact (Tells.called sh step.stepName _).tellsAll fun _ h => by cases h
  | retry _ => exact (Tells.replied sh step.stepName none _).tellsAll fun _ h => by cases h
  | answer _ hl => exact .after (.replied sh step.stepName none _) (tellsAll_leave hl)
  | item ht =>
    obtain ⟨_, _, _, _, -, -, ho, -, -⟩ := Crew.turn_eq_some.mp ht
    exact (tells_mapOne ho).tellsAll fun _ h => by cases h
  | gathered _ hl => exact tellsAll_leave hl
  | streamGo hs => exact (streamResume_effect hs).1.tellsAll fun _ h => by cases h
  | streamLeave hs hl => exact .after (streamResume_effect hs).1 (tellsAll_leave hl)
  | saved => exact tellsAll_end rfl

theorem record_eq_ok {result : JsonValue} {ctx ctx' : DagContext} (h : step.record result ctx = .ok ctx') :
    ∃ context, mapOutput step.outputMapping.entries result ctx.context = .ok context ∧ ctx' = { ctx with
      context
      stepResults := JsonValue.assign ctx.stepResults step.stepName result
      completedSteps := ctx.completedSteps ++ [step.stepName] } := by
  unfold DagStep.record at h
  cases hm : mapOutput step.outputMapping.entries result ctx.context with
  | error e =>
    rw [hm] at h
    cases h
  | ok context =>
    rw [hm] at h
    exact ⟨context, rfl, (Except.ok.inj h).symm⟩

def Accumulates (ph : Phase) (ctx ctx' : DagContext) : Prop :=
  ∃ trigger input received chunk ds rest v, ph = .streaming trigger input (.feeding received chunk ds rest) ∧
    ctx' = ctx.accumulate ds v

/-- A turn leaves the context, completes the step in it or records its result. -/
theorem StepTurn.ctx_cases (h : StepTurn setup step signal ph sh ph' sh') :
    ∃ mid, (mid = sh.ctx ∨ Accumulates ph sh.ctx mid) ∧ (sh'.ctx = mid ∨
        (ph = .created ∧ ph' = .ended (.ok (.obj [])) ∧ step.skipped setup.parse sh.ctx = true ∧
          sh'.ctx = { mid with completedSteps := mid.completedSteps ++ [step.stepName] }) ∨
        ∃ result, step.record result mid = .ok sh'.ctx ∧ ph.holds = true ∧
          (ph' = .saving result ∨ ph' = .ended (.ok result))) := by
  have hl : ∀ outcome (from₀ : DagShared), setup.leave step outcome from₀ = (ph', sh') → ph.holds = true →
      sh'.ctx = from₀.ctx ∨ ∃ result, step.record result from₀.ctx = .ok sh'.ctx ∧ ph.holds = true ∧
        (ph' = .saving result ∨ ph' = .ended (.ok result)) := by
    intro outcome from₀ ho hh
    rcases leave_cases ho with ⟨e, -, -, rfl⟩ | ⟨result, ctx, -, hr, ⟨-, rfl, rfl⟩ | ⟨-, rfl, rfl⟩⟩
    · exact .inl rfl
    · exact .inr ⟨result, hr, hh, .inl rfl⟩
    · exact .inr ⟨result, hr, hh, .inr rfl⟩
  cases h with
  | skip hsk => exact ⟨sh.ctx, .inl rfl, .inr (.inl ⟨rfl, rfl, hsk, rfl⟩)⟩
  | start _ | acquire | scatter _ | connect _ _ => exact ⟨sh.ctx, .inl rfl, .inl rfl⟩
  | pass _ _ ho => exact ⟨sh.ctx, .inl rfl, (hl _ _ ho rfl).imp_right .inr⟩
  | call _ _ | again | retry _ => exact ⟨sh.ctx, .inl rfl, .inl rfl⟩
  | answer _ ho => exact ⟨sh.ctx, .inl rfl, (hl _ _ ho rfl).imp_right .inr⟩
  | item ht =>
    obtain ⟨_, _, _, _, -, -, hon, -, -⟩ := Crew.turn_eq_some.mp ht
    exact ⟨sh.ctx, .inl rfl, .inl (ctx_mapOne hon)⟩
  | gathered _ ho => exact ⟨sh.ctx, .inl rfl, (hl _ _ ho rfl).imp_right .inr⟩
  | streamGo hs =>
    rcases (streamResume_effect hs).2 with hc | ⟨received, chunk, ds, rest, v, rfl, hc⟩
    · exact ⟨sh.ctx, .inl rfl, .inl hc⟩
    · exact ⟨_, .inr ⟨_, _, received, chunk, ds, rest, v, rfl, rfl⟩, .inl hc⟩
  | @streamLeave trigger input sp _ _ outcome _ mid _ hs ho =>
    refine ⟨mid.ctx, ?_, (hl _ _ ho rfl).imp_right .inr⟩
    rcases (streamResume_effect hs).2 with hc | ⟨received, chunk, ds, rest, v, rfl, hc⟩
    · exact .inl hc
    · exact .inr ⟨trigger, input, received, chunk, ds, rest, v, rfl, hc⟩
  | saved => exact ⟨sh.ctx, .inl rfl, .inl rfl⟩

theorem accumulate_fields (ctx : DagContext) (ds : String) (v : JsonValue) :
    (ctx.accumulate ds v).inputData = ctx.inputData ∧ (ctx.accumulate ds v).taskId = ctx.taskId ∧
      (ctx.accumulate ds v).stepResults = ctx.stepResults ∧
      (ctx.accumulate ds v).completedSteps = ctx.completedSteps := by
  unfold DagContext.accumulate
  dsimp only
  split <;> exact ⟨rfl, rfl, rfl, rfl⟩

/-- What a turn leaves of the context of the other steps. -/
theorem StepTurn.fields (h : StepTurn setup step signal ph sh ph' sh') :
    sh'.ctx.inputData = sh.ctx.inputData ∧ sh'.ctx.taskId = sh.ctx.taskId ∧
    (∀ n, n ≠ step.stepName → sh'.ctx.stepResults.lookup n = sh.ctx.stepResults.lookup n) ∧
    (sh'.ctx.completedSteps = sh.ctx.completedSteps ∨
      sh'.ctx.completedSteps = sh.ctx.completedSteps ++ [step.stepName]) := by
  obtain ⟨mid, hm, hc⟩ := h.ctx_cases
  have hf : mid.inputData = sh.ctx.inputData ∧ mid.taskId = sh.ctx.taskId ∧
      mid.stepResults = sh.ctx.stepResults ∧ mid.completedSteps = sh.ctx.completedSteps := by
    rcases hm with rfl | ⟨_, _, _, _, ds, _, v, -, rfl⟩
    · exact ⟨rfl, rfl, rfl, rfl⟩
    · exact accumulate_fields sh.ctx ds v
  obtain ⟨hi, ht, hre, hco⟩ := hf
  rw [← hi, ← ht, ← hre, ← hco]
  rcases hc with heq | ⟨-, -, -, heq⟩ | ⟨result, hr, -, -⟩
  · rw [heq]
    exact ⟨rfl, rfl, fun _ _ => rfl, .inl rfl⟩
  · rw [heq]
    exact ⟨rfl, rfl, fun _ _ => rfl, .inr rfl⟩
  · obtain ⟨context, -, heq⟩ := record_eq_ok hr
    rw [heq]
    refine ⟨rfl, rfl, fun n hn => ?_, .inr rfl⟩
    rw [JsonValue.lookup_assign, if_neg hn]

end

end AsyncScheduler
