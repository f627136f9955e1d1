import AsyncScheduler.Properties.DagTermination

/-!
# Attempts of a step

The answers to a step are a sequence, one for each attempt.
-/

namespace AsyncScheduler

open DagEngine (names stepNamed topoSort)

def AnswersFrom (step : DagStep) (answers : ℕ → Except PyErr JsonValue) (t : StepTask) (signal : Signal) : Prop :=
  ∀ input n outcome, t.step = step → t.phase = .calling input n → signal = .reply outcome → outcome = answers n

/-- Values are dicts, and failures ordinary exceptions. -/
structure OrdinaryAnswers (answers : ℕ → Except PyErr JsonValue) : Prop where
  values : ∀ n v, answers n = .ok v → ∃ fields, v = .obj fields
  failures : ∀ n e, answers n = .error e → e.isException = true

section
variable {setup : DagSetup} {step : DagStep} {answers : ℕ → Except PyErr JsonValue}
variable {sh : DagShared} {ph : Phase} {sh' : DagShared} {outcome : Except PyErr JsonValue} {ph' : Phase}
  {input : JsonObj} {k : ℕ} {e : PyErr} {v : JsonValue} {n : ℕ} {signal : Signal} {m : ℕ}
  {S : Prop}

theorem mapOutput_obj (mapping : List (String × String)) (fields target : JsonObj) :
    ∃ context, mapOutput mapping (.obj fields) target = .ok context := by
  induction mapping generalizing target with
  | nil => exact ⟨target, rfl⟩
  | cons e mapping ih => exact ih _

theorem record_obj (step : DagStep) (fields : JsonObj) (ctx : DagContext) :
    ∃ ctx', step.record (.obj fields) ctx = .ok ctx' := by
  obtain ⟨context, hc⟩ := mapOutput_obj step.outputMapping.entries fields ctx.context
  exact ⟨_, by rw [DagStep.record, hc]; rfl⟩

theorem resolve_obj (h : step.resolve e = .ok v) : ∃ fields, v = .obj fields := by
  unfold DagStep.resolve at h
  split at h
  · exact ⟨_, (Except.ok.inj h).symm⟩
  · exact ⟨_, (Except.ok.inj h).symm⟩
  · cases h

theorem resolve_raises (h : step.onFailure = .abort ∨ step.onFailure = .fallback ∧ step.fallback = none) (e : PyErr) :
    step.resolve e = .error e := by
  rcases h with ha | ⟨hf, hn⟩
  · rw [DagStep.resolve, ha]
  · rw [DagStep.resolve, hf, hn]

theorem conclude_obj (ho : OrdinaryAnswers answers) (h : step.conclude (answers n) = .ok v) :
    ∃ fields, v = .obj fields := by
  cases hn : answers n with
  | ok w =>
    rw [hn] at h
    obtain rfl := Except.ok.inj h
    exact ho.values n w hn
  | error e =>
    rw [hn, DagStep.conclude, if_pos (ho.failures n e hn)] at h
    exact resolve_obj h

/-- The step has left the semaphore with an outcome: its result is recorded, or its error raised. -/
structure Concluded (setup : DagSetup) (step : DagStep) (outcome : Except PyErr JsonValue) (sh : DagShared)
    (ph : Phase) : Prop where
  recorded : ∀ v, outcome = .ok v → sh.ctx.stepResults.lookup step.stepName = some v ∧
    ((setup.hasStore = true ∧ ph = .saving v) ∨ ph = .ended (.ok v) ∨
      (setup.hasStore = true ∧ ∃ e, ph = .ended (.error e)))
  raised : ∀ e, outcome = .error e → ph = .ended (.error e)

/-- Leaving with a dict records it; leaving with an error raises it. -/
theorem concluded_leave
    (h : setup.leave step outcome sh = (ph', sh')) (ho : ∀ v, outcome = .ok v → ∃ fields, v = .obj fields) :
    Concluded setup step outcome sh' ph' := by
  rcases leave_cases h with ⟨e, hw, rfl, rfl⟩ | ⟨result, ctx, rfl, hr, hc⟩
  · have her : outcome = .error e := by
      rcases hw with her | ⟨result, hok, hr⟩
      · exact her
      · obtain ⟨fields, rfl⟩ := ho result hok
        obtain ⟨ctx', hct⟩ := record_obj step fields sh.ctx
        rw [hct] at hr
        cases hr
    subst her
    exact ⟨fun v hv => (by cases hv), fun e' he' => by rw [Except.error.inj he']⟩
  · obtain ⟨context, -, rfl⟩ := record_eq_ok hr
    refine ⟨fun v hv => ?_, fun e he => (by cases he)⟩
    obtain rfl := Except.ok.inj hv
    rcases hc with ⟨hs, rfl, rfl⟩ | ⟨-, rfl, rfl⟩
    · exact ⟨by simp [JsonValue.lookup_assign], .inl ⟨hs, rfl⟩⟩
    · exact ⟨by simp [JsonValue.lookup_assign], .inr (.inl rfl)⟩

theorem Concluded.saved {result : JsonValue}
    (h : Concluded setup step outcome sh (.saving result)) (o : Except PyErr Unit) (e : DagEvent) :
    Concluded setup step outcome (sh.note e) (.ended (o.map fun _ => result)) := by
  refine ⟨fun v hv => ?_, fun e he => (by cases h.raised e he)⟩
  obtain ⟨hr, hw⟩ := h.recorded v hv
  refine ⟨hr, .inr ?_⟩
  rcases hw with ⟨hst, hs⟩ | hen | ⟨-, e, hen⟩
  · obtain rfl := Phase.saving.inj hs
    cases o with
    | ok _ => exact .inl rfl
    | error e => exact .inr ⟨hst, e, rfl⟩
  · cases hen
  · cases hen

theorem Concluded.congr (h : Concluded setup step outcome sh ph)
    (hr : sh'.ctx.stepResults.lookup step.stepName = sh.ctx.stepResults.lookup step.stepName) :
    Concluded setup step outcome sh' ph :=
  ⟨fun v hv => ⟨hr.trans (h.recorded v hv).1, (h.recorded v hv).2⟩, h.raised⟩

/-- On the way to this state the condition of the step has skipped it. -/
def DagSetup.SkippedBefore (setup : DagSetup) (A : StepTask → Signal → Prop) (dag : DagDefinition) (initial : JsonObj)
    (step : DagStep) (r : DagRun) : Prop :=
  ∃ s, setup.OnTheWay A dag initial s r ∧ ⟨step, .created⟩ ∈ s.pool.tasks ∧ step.skipped setup.parse s.shared.ctx = true

/-- The step has made its attempts up to `k`, and concluded with the last answer. -/
structure Tried (setup : DagSetup) (step : DagStep) (answers : ℕ → Except PyErr JsonValue) (sh : DagShared)
    (ph : Phase) (input : JsonObj) (k : ℕ) : Prop where
  calls : callsOf step.stepName sh.trace = List.replicate (k + 1) (step.request input)
  bound : k < step.attempts
  failed : ∀ i < k, ∃ e, answers i = .error e
  last : step.retries k (answers k) = false
  concluded : Concluded setup step (step.conclude (answers k)) sh ph

/-- The attempts of a step in each place of its `_run_step`; `S` says that it has been skipped. -/
def Phase.Tries (setup : DagSetup) (step : DagStep) (answers : ℕ → Except PyErr JsonValue) (S : Prop)
    (sh : DagShared) : Phase → Prop
  | .created | .waiting _ | .inside _ => callsOf step.stepName sh.trace = []
  | .calling input n => n < step.attempts ∧
      callsOf step.stepName sh.trace = List.replicate (n + 1) (step.request input) ∧ ∀ i < n, ∃ e, answers i = .error e
  | .sleeping input n => n < step.attempts ∧
      callsOf step.stepName sh.trace = List.replicate n (step.request input) ∧ ∀ i < n, ∃ e, answers i = .error e
  | .mapping _ _ _ | .streaming _ _ _ => False
  | .saving v => ∃ input k, Tried setup step answers sh (.saving v) input k
  | .ended o => S ∧ callsOf step.stepName sh.trace = [] ∨ ∃ input k, Tried setup step answers sh (.ended o) input k

/-- The calls of a step and their answers, through every turn. -/
theorem StepTurn.tries (ho : OrdinaryAnswers answers) (hno : step.Normal) (hpos : 0 < step.attempts)
    (ha : AnswersFrom step answers ⟨step, ph⟩ signal) (hS : ph = .created → step.skipped setup.parse sh.ctx = true → S)
    (h : StepTurn setup step signal ph sh ph' sh') (hph : ph.Tries setup step answers S sh) :
    ph'.Tries setup step answers S sh' := by
  cases h with
  | skip hsk => exact .inl ⟨hS rfl hsk, (callsOf_note_ended _ _ _ _).trans hph⟩
  | start _ => exact hph
  | acquire => exact hph
  | scatter hm =>
    rw [hno.1] at hm
    cases hm
  | connect _ htr =>
    rw [hno.2] at htr
    cases htr
  | pass _ hz _ => omega
  | call _ _ =>
    have hni : callsOf step.stepName sh.trace = [] := hph
    refine ⟨hpos, ?_, fun i hi => absurd hi (Nat.not_lt_zero i)⟩
    rw [callsOf_note_called, hni]
    rfl
  | again =>
    refine ⟨hph.1, ?_, hph.2.2⟩
    rw [callsOf_note_called, hph.2.1, List.replicate_succ']
  | @retry input n outcome _ hr =>
    obtain rfl := ha input n outcome rfl rfl rfl
    cases hn : answers n with
    | ok v =>
      rw [hn] at hr
      cases hr
    | error e =>
      rw [hn] at hr
      simp only [DagStep.retries, Bool.and_eq_true, decide_eq_true_eq] at hr
      refine ⟨hr.2, ?_, fun i hi => ?_⟩
      · rw [callsOf_note_replied]
        exact hph.2.1
      · rcases Nat.lt_succ_iff_lt_or_eq.mp hi with hlt | rfl
        · exact hph.2.2 i hlt
        · exact ⟨e, hn⟩
  | @answer input n outcome _ _ _ hl hou =>
    obtain rfl := ha input n outcome rfl rfl rfl
    have hc : callsOf step.stepName sh'.trace = callsOf step.stepName sh.trace := by
      rcases leave_cases hou with ⟨e, -, -, rfl⟩ | ⟨result, ctx, -, -, ⟨-, -, rfl⟩ | ⟨-, -, rfl⟩⟩ <;> simp [-DagShared.note_trace]
    have ht : Tried setup step answers sh' ph' input n :=
      ⟨hc.trans hph.2.1, hph.1, hph.2.2, hl, concluded_leave hou fun v hv => conclude_obj ho hv⟩
    rcases leave_cases hou with ⟨e, -, rfl, -⟩ | ⟨result, ctx, -, -, ⟨-, rfl, -⟩ | ⟨-, rfl, -⟩⟩
    · exact .inr ⟨input, n, ht⟩
    · exact ⟨input, n, ht⟩
    · exact .inr ⟨input, n, ht⟩
  | item _ | gathered _ _ | streamGo _ | streamLeave _ _ => exact absurd hph id
  | @saved result outcome _ =>
    obtain ⟨input, k, ht⟩ := hph
    exact .inr ⟨input, k, (callsOf_note_ended _ _ _ _).trans ht.calls, ht.bound, ht.failed, ht.last,
      ht.concluded.saved outcome _⟩

theorem Tried.exhausted
    (h : Tried setup step answers sh ph input k) (ho : OrdinaryAnswers answers) (hk : ∃ e, answers k = .error e) :
    step.attempts ≤ k + 1 := by
  obtain ⟨e, he⟩ := hk
  have hl := h.last
  rw [he] at hl
  simpa [DagStep.retries, ho.failures k e he] using hl

theorem Tried.of_ctx (h : Tried setup step answers sh ph input k)
    (hc : callsOf step.stepName sh'.trace = callsOf step.stepName sh.trace)
    (hr : sh'.ctx.stepResults.lookup step.stepName = sh.ctx.stepResults.lookup step.stepName) :
    Tried setup step answers sh' ph input k :=
  ⟨hc.trans h.calls, h.bound, h.failed, h.last, h.concluded.congr hr⟩

theorem Phase.Tries.other (h : ph.Tries setup step answers S sh)
    (hc : callsOf step.stepName sh'.trace = callsOf step.stepName sh.trace)
    (hr : sh'.ctx.stepResults.lookup step.stepName = sh.ctx.stepResults.lookup step.stepName) :
    ph.Tries setup step answers S sh' := by
  cases ph with
  | calling input n | sleeping input n => exact ⟨h.1, hc.trans h.2.1, h.2.2⟩
  | mapping _ _ _ => exact h
  | streaming _ _ _ => exact h
  | saving v =>
    obtain ⟨input, k, ht⟩ := h
    exact ⟨input, k, ht.of_ctx hc hr⟩
  | ended o =>
    rcases h with ⟨hS, hn⟩ | ⟨input, k, ht⟩
    · exact .inl ⟨hS, hc.trans hn⟩
    · exact .inr ⟨input, k, ht.of_ctx hc hr⟩
  | _ => exact hc.trans h

theorem reaches_tries {dag : DagDefinition} {initial : JsonObj} {r : DagRun}
    (ho : OrdinaryAnswers answers) (hn : step.Normal) (hpos : 0 < step.attempts)
    (h : setup.Reaches (AnswersFrom step answers) dag initial r) :
    ∀ t ∈ r.all (setup.engine dag.steps), t.step = step → t.phase.Tries setup step answers
      (setup.SkippedBefore (AnswersFrom step answers) dag initial step r) r.shared := by
  refine reaches_tasks_at (P := fun t sh => t.step = step → t.phase.Tries setup step answers _ sh) h ?_ ?_ ?_
  · exact fun ctx _ s _ _ => rfl
  · rintro s signal _ ph ph' sh' hs hm ha hP ht rfl
    refine ht.tries ho hn hpos ha ?_ (hP rfl)
    rintro rfl hsk
    exact ⟨s, hs, hm, hsk⟩
  · rintro s signal _ ph ph' sh' u - - - - - hne hPu ht rfl
    obtain ⟨events, htr, hr, -⟩ := ht.tellsAll
    refine (hPu rfl).other (callsOf_congr ?_) (ht.fields.2.2.1 _ hne)
    rw [htr, ownTrace_append_other]
    intro e he
    rw [hr e he]
    exact Ne.symm hne

theorem conclude_raises (hn : answers n = .error e) (hp : ∀ e, step.resolve e = .error e) :
    step.conclude (answers n) = .error e := by
  rw [hn, DagStep.conclude, hp e]
  split <;> rfl

theorem StepTurn.ctx_raised (hpos : 0 < step.attempts)
    (hf : ∀ i < step.attempts, ∃ e, answers i = .error e) (hp : ∀ e, step.resolve e = .error e)
    (ha : AnswersFrom step answers ⟨step, ph⟩ signal) (hph : ph.Tries setup step answers S sh) (h : StepTurn setup step signal ph sh ph' sh') :
    ph = .created ∧ ph' = .ended (.ok (.obj [])) ∨ sh'.ctx = sh.ctx := by
  cases h with
  | skip _ => exact .inl ⟨rfl, rfl⟩
  | pass _ hz _ => omega
  | @answer input n outcome _ _ _ _ ho =>
    obtain rfl := ha input n outcome rfl rfl rfl
    obtain ⟨e, he⟩ := hf n hph.1
    rw [conclude_raises he hp] at ho
    obtain ⟨-, rfl⟩ := Prod.mk.inj ho
    exact .inr rfl
  | item _ | gathered _ _ | streamGo _ | streamLeave _ _ => exact absurd hph id
  | _ => exact .inr rfl

theorem attempts_eq (hm : step.retryPolicy.maxRetries = m) : step.attempts = m + 1 := by
  unfold DagStep.attempts
  omega

theorem Tried.succeeds {f : ℕ}
    (ho : OrdinaryAnswers answers) (hm : step.retryPolicy.maxRetries = m) (h : Tried setup step answers sh ph input k)
    (hfa : ∀ i < f, ∃ e, answers i = .error e) (hf : ∃ v, answers f = .ok v) : k = min f m := by
  have ha := attempts_eq hm
  have hb := h.bound
  obtain ⟨v, hv⟩ := hf
  rcases Nat.lt_or_ge f k with hlt | hge
  · obtain ⟨e, he⟩ := h.failed f hlt
    rw [hv] at he
    cases he
  · rcases Nat.eq_or_lt_of_le hge with rfl | hlt
    · omega
    · have hl := h.exhausted ho (hfa k hlt)
      omega

end

/-- A normal step whose answers are a given sequence, once it has left the semaphore: unless its condition
has skipped it, it was called `min(f, m) + 1` times with one payload, `f` being the number of failures before
the first success. The value of a success is its recorded result; without one the result is that of
its policy, or the last error is raised, and then no turn of the step has changed the context. -/
theorem attempts_follow_answers (setup : DagSetup) (dag : DagDefinition) (initial : JsonObj)
    (step : DagStep) (answers : ℕ → Except PyErr JsonValue) (m : ℕ) (hnormal : step.Normal)
    (hm : step.retryPolicy.maxRetries = m) (ho : OrdinaryAnswers answers) (r : DagRun)
    (h : setup.Reaches (AnswersFrom step answers) dag initial r) (t : StepTask)
    (ht : t ∈ r.all (setup.engine dag.steps)) (hstep : t.step = step)
    (hleft : (∃ v, t.phase = .saving v) ∨ ∃ o, t.phase = .ended o) :
    (setup.SkippedBefore (AnswersFrom step answers) dag initial step r ∧ callsOf step.stepName r.shared.trace = [] ∨
      ∃ input k, callsOf step.stepName r.shared.trace = List.replicate (k + 1) (step.request input) ∧
      (∀ f, (∀ i < f, ∃ e, answers i = .error e) → (∃ v, answers f = .ok v) → k = min f m) ∧
      ((∀ i ≤ m, ∃ e, answers i = .error e) → k = m) ∧
      (∀ v, answers k = .ok v → r.shared.ctx.stepResults.lookup step.stepName = some v) ∧
      ∀ e, answers k = .error e →
        (∀ f, step.onFailure = .fallback → step.fallback = some f → r.shared.ctx.stepResults.lookup step.stepName =
          some (.obj (f.outputMapping.entries.map fun e => (e.1, .str e.2)))) ∧
        (step.onFailure = .skip → r.shared.ctx.stepResults.lookup step.stepName = some (.obj [])) ∧
        (step.onFailure = .abort ∨ step.onFailure = .fallback ∧ step.fallback = none →
          t.phase = .ended (.error e))) ∧
    ((∀ i ≤ m, ∃ e, answers i = .error e) →
      (step.onFailure = .abort ∨ step.onFailure = .fallback ∧ step.fallback = none) →
      ∀ r' signal t₀ t' sh', setup.Reaches (AnswersFrom step answers) dag initial r' →
        t₀ ∈ r'.all (setup.engine dag.steps) → t₀.step = step → AnswersFrom step answers t₀ signal →
        setup.resume signal t₀ r'.shared = some (t', sh') →
        t₀.phase = .created ∧ t'.phase = .ended (.ok (.obj [])) ∨ sh'.ctx = r'.shared.ctx) := by
  have hat := attempts_eq hm
  have hpos : 0 < step.attempts := by omega
  constructor
  · have hcase : setup.SkippedBefore (AnswersFrom step answers) dag initial step r ∧
        callsOf step.stepName r.shared.trace = [] ∨ ∃ input k, Tried setup step answers r.shared t.phase input k := by
      have htri := reaches_tries ho hnormal hpos h t ht hstep
      rcases hleft with ⟨v, hv⟩ | ⟨o, hv⟩
      · rw [hv] at htri ⊢
        exact .inr htri
      · rw [hv] at htri ⊢
        exact htri
    refine hcase.imp_right ?_
    rintro ⟨input, k, htr⟩
    refine ⟨input, k, htr.calls, fun f hfa hf => htr.succeeds ho hm hfa hf, fun hfa => ?_, fun v hv => ?_,
      fun e he => ⟨fun f hfal hf => ?_, fun hs => ?_, fun hp => ?_⟩⟩
    · have hb := htr.bound
      have hl := htr.exhausted ho (hfa k (by omega))
      omega
    · exact (htr.concluded.recorded v (by rw [hv]; rfl)).1
    · refine (htr.concluded.recorded _ ?_).1
      rw [he, DagStep.conclude, if_pos (ho.failures k e he), DagStep.resolve, hfal, hf]
    · refine (htr.concluded.recorded _ ?_).1
      rw [he, DagStep.conclude, if_pos (ho.failures k e he), DagStep.resolve, hs]
    · exact htr.concluded.raised e (conclude_raises he (resolve_raises hp))
  · rintro hfa hp r' signal ⟨_, ph⟩ ⟨_, ph'⟩ sh' hr hme rfl ha hre
    obtain ⟨-, htu⟩ := resume_eq_some hre
    have htri := reaches_tries ho hnormal hpos hr _ hme rfl
    exact htu.ctx_raised hpos (fun i hi => hfa i (by omega)) (resolve_raises hp) ha htri

def retriedStep : DagStep := { stepName := "a", capability := "gpu", retryPolicy := ⟨1⟩, onFailure := .skip }

def retriedRun : Option DagRun :=
  DagSetup.after {} { dagId := "d", steps := [retriedStep] } []
    (oneCall 0 (.error (.timeoutError "")) ++ [.turn 0 .go, .turn 0 (.reply (.error (.timeoutError "")))])

theorem attempts_follow_answers_retried : ∃ r, retriedRun = some r ∧
    (∃ input, callsOf "a" r.shared.trace = List.replicate 2 (retriedStep.request input)) ∧
    r.shared.ctx.stepResults.lookup "a" = some (.obj []) := by
  have hru : retriedRun.map (fun r => r.pool.tasks.map fun t => (t.step, t.phase.isEnded)) = some [(retriedStep, true)] := by
    decide +kernel
  obtain ⟨r, hr, hta⟩ := Option.map_eq_some_iff.mp hru
  obtain ⟨t, ht, hvi⟩ := List.mem_map.mp (hta ▸ List.mem_singleton.mpr rfl)
  obtain ⟨hs, hen⟩ := Prod.mk.inj hvi
  let answers : ℕ → Except PyErr JsonValue := fun _ => .error (.timeoutError "")
  have hre : DagSetup.Reaches {} (AnswersFrom retriedStep answers) { dagId := "d", steps := [retriedStep] } [] r := by
    refine reaches_of_after hr fun j i t hm input n outcome _ _ hi => ?_
    subst hi
    simp only [oneCall, List.cons_append, List.nil_append, List.mem_cons, ForkJoin.Move.turn.injEq, reduceCtorEq,
      and_false, Signal.reply.injEq, List.not_mem_nil, or_false, false_or, or_self] at hm
    exact hm.2
  have ho : OrdinaryAnswers answers := ⟨fun n v hv => (by cases hv), fun n e he => (by cases he; rfl)⟩
  obtain ⟨⟨⟨_, -, -, hsk⟩, -⟩ | ⟨input, k, hco, -, hf, -, hp⟩, -⟩ := attempts_follow_answers {} _ [] retriedStep answers 1
    (by decide) rfl ho r hre t (by simp [ForkJoin.State.all, ht]) hs (.inr (Phase.exists_of_isEnded hen))
  · -- The step has no condition
    cases hsk
  · obtain rfl := hf fun i _ => ⟨_, rfl⟩
    exact ⟨r, hr, ⟨input, hco⟩, (hp _ rfl).2.1 rfl⟩

end AsyncScheduler
