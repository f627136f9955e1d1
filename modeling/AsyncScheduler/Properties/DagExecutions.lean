import AsyncScheduler.Platform.TaskExecutor
import AsyncScheduler.Properties.DagHistory

/-!
# Runs as executions

The executor drives an engine whose steps are programs on the context. A run of the waves in which
each step waits, is resumed and ends is an execution of such an engine: the programs of its steps are
the signals that the run has given them.
-/

namespace AsyncScheduler
open List DagEngine

/-- What each step is told in a run, with what the run had noted before. -/
abbrev Script := String → List (Signal × List DagEvent)

namespace DagSetup
variable (setup : DagSetup)

/-- `_run_step` from a place where it waits, as a program that is told what it waits for. -/
def follow (step : DagStep) : List (Signal × List DagEvent) → Phase → StepProg Unit
  | [], .ended (.error e) => .raise e
  | [], _ => .ret ()
  | (signal, noted) :: rest, ph =>
    .act (fun ctx => (setup.runStep step signal ph ⟨ctx, noted⟩).elim ctx (·.2.ctx)) fun _ ctx =>
      (setup.runStep step signal ph ⟨ctx, noted⟩).elim (.ret ()) fun r => follow step rest r.1

def dagEngine (script : Script) : DagEngine := ⟨fun step _ => setup.follow step (script step.stepName) .created⟩

end DagSetup

namespace StepTask

def outcome (t : StepTask) : Except PyErr Unit :=
  match t.phase with
  | .ended o => o.map fun _ => ()
  | _ => .ok ()

def program (setup : DagSetup) (script : Script) (t : StepTask) : StepProg Unit :=
  setup.follow t.step (script t.step.stepName) t.phase

variable {t : StepTask}

theorem settle_program {script : Script} (setup : DagSetup) (stop : Fault → Option PyErr) (h : t.phase.isEnded = true)
    (hn : script t.step.stepName = []) : (t.program setup script).settle stop = .ret t.outcome := by
  obtain ⟨o, ho⟩ := Phase.exists_of_isEnded h
  rw [program, outcome, hn, ho]
  cases o <;> rfl

theorem aborts_outcome (h : t.phase.isEnded = true) : DagEngine.aborts t.step t.outcome = DagSetup.stops t := by
  obtain ⟨o, ho⟩ := Phase.exists_of_isEnded h
  rw [outcome, DagSetup.stops, ho]
  cases o <;> simp [DagEngine.aborts, Except.map]

end StepTask

section
variable {setup : DagSetup} {steps : List DagStep} {A : StepTask → Signal → Prop} {s s' : DagRun}
  {script script' : Script}

/-- The effect of a command of a step is to change the context. -/
abbrev onContext : (DagContext → DagContext) → Fault → DagContext → DagContext := fun f _ ctx => f ctx

theorem runWith_settleAll (setup : DagSetup) {tasks : List StepTask}
    (h : ∀ t ∈ tasks, t.phase.isEnded = true ∧ script t.step.stepName = []) (ctx : DagContext) :
    (Prog.settleAll Fault.interrupt (tasks.map (StepTask.program setup script))).runWith onContext .ok ctx =
      (.ok (tasks.map StepTask.outcome), ctx) := by
  induction tasks with
  | nil => rfl
  | cons t tasks ih =>
    obtain ⟨he, hn⟩ := h t mem_cons_self
    rw [map_cons, Prog.settleAll, StepTask.settle_program setup _ he hn, Prog.ret_bind,
      Prog.runWith_bind_ok (ih fun t ht => h t (mem_cons_of_mem _ ht))]
    rfl

/-- One turn of a task is the first command of its program, if the script of the task starts with the signal. -/
theorem runWith_turn {before after : List StepTask} {t t' : StepTask} {i : Signal} {sh sh' : DagShared}
    (script' : Script) (hr : setup.resume i t sh = some (t', sh')) (ht : script' t.step.stepName = (i, sh.trace) :: script t.step.stepName)
    (ho : ∀ u ∈ before ++ after, script' u.step.stepName = script u.step.stepName) (sched : List Nat) :
    (Prog.gather Fault.interrupt (before.length :: sched)
        ((before ++ t :: after).map (StepTask.program setup script'))).runWith onContext .ok sh.ctx =
      (Prog.gather Fault.interrupt sched
        ((before ++ t' :: after).map (StepTask.program setup script))).runWith onContext .ok sh'.ctx := by
  obtain ⟨⟨ph, mid⟩, hstep, heq⟩ := Option.map_eq_some_iff.mp hr
  obtain ⟨rfl, rfl⟩ := Prod.mk.inj heq
  have hstep' : setup.runStep t.step i t.phase ⟨sh.ctx, sh.trace⟩ = some (ph, mid) := hstep
  have hu : ∀ u ∈ before ++ after, u.program setup script' = u.program setup script := fun u hu => by
    rw [StepTask.program, StepTask.program, ho u hu]
  have hb := map_congr_left fun u h => hu u (mem_append_left after h)
  have ha := map_congr_left fun u h => hu u (mem_append_right before h)
  rw [map_append, map_cons, map_append, map_cons, hb, ha, StepTask.program, ht, DagSetup.follow, Prog.gather]
  simp only [getElem?_append_right, length_map, le_refl, Nat.sub_self, getElem?_cons_zero, Prog.runWith_act,
    Fault.interrupt, hstep', Option.elim_some, onContext]
  have hl : before.length = (before.map (StepTask.program setup script)).length := (length_map _).symm
  rw [hl, set_append_right _ _ (le_refl _), Nat.sub_self]
  rfl

/-- Once a run has its verdict it does not go on. -/
theorem reach_of_verdict (h : (setup.engine steps).Reach A s s') (hv : s.verdict ≠ none)
    (hall : ∀ t ∈ s.pool.tasks, t.phase.isEnded = true) : s' = s := by
  rcases h.cases_head with rfl | ⟨s₁, hnext, -⟩
  · rfl
  · rcases ForkJoin.next_cases hnext with ⟨j, i, t, t', before, after, shared, -, htasks, hr, -⟩ | ⟨hn, -⟩
    · have he := hall t (by simp [htasks])
      have hnone : setup.resume i t s.shared = none := resume_ended i t s.shared he
      exact absurd (hnone.symm.trans hr) (Option.some_ne_none _).symm
    · exact absurd hn hv

/-- Only what the steps of the waves are told matters. -/
theorem runWaves_congr (dispatch : DispatchArg) {waves : List (List String)}
    (h : ∀ name ∈ waves.flatten, script' name = script name) (schedules : List (List Nat)) :
    (setup.dagEngine script').runWaves steps dispatch waves schedules =
      (setup.dagEngine script).runWaves steps dispatch waves schedules := by
  induction waves generalizing schedules with
  | nil => rfl
  | cons wave waves ih =>
    have hprogs : (wave.filterMap (stepNamed steps)).map ((setup.dagEngine script').runStep · dispatch) =
        (wave.filterMap (stepNamed steps)).map ((setup.dagEngine script).runStep · dispatch) := by
      refine map_congr_left fun step hs => ?_
      obtain ⟨name, hm, hnamed⟩ := mem_filterMap.mp hs
      have hscript := h step.stepName (mem_append_left _ ((stepNamed_mem hnamed).2 ▸ hm))
      exact congrArg (setup.follow step · .created) hscript
    simp only [DagEngine.runWaves, hprogs, ih fun name hm => h name (mem_append_right _ hm)]

/-- What is left of an execution at a state of a run: the wave it is in, and the loop over the others. -/
def DagSetup.remaining (setup : DagSetup) (steps : List DagStep) (dispatch : DispatchArg) (script : Script)
    (sched : List Nat) (schedules : List (List Nat)) (s : DagRun) : StepProg DagStatus :=
  (Prog.gather Fault.interrupt sched (s.pool.tasks.map (StepTask.program setup script))).bind fun results =>
    if ((s.pool.tasks.map StepTask.step).zip results).any fun (step, r) => DagEngine.aborts step r then .ret .failed
    else (setup.dagEngine script).runWaves steps dispatch s.todo schedules

theorem remaining_spawn (dispatch : DispatchArg) {wave : List String} (h : s.pool.tasks = (setup.engine steps).spawn wave)
    (sched : List Nat) (schedules : List (List Nat)) :
    setup.remaining steps dispatch script sched schedules s =
      (setup.dagEngine script).runWaves steps dispatch (wave :: s.todo) (sched :: schedules) := by
  have hsteps : s.pool.tasks.map StepTask.step = wave.filterMap (stepNamed steps) := by
    rw [h, DagSetup.engine, map_map]
    exact map_id _
  have hprogs : s.pool.tasks.map (StepTask.program setup script) =
      (wave.filterMap (stepNamed steps)).map ((setup.dagEngine script).runStep · dispatch) := by
    rw [h, DagSetup.engine, map_map]
    rfl
  rw [DagSetup.remaining, hsteps, hprogs]
  rfl

theorem not_any_stops {tasks : List StepTask} (h : ∀ t ∈ tasks, DagSetup.stops t = false) :
    ¬ tasks.any DagSetup.stops = true := by
  simpa using h

/-- A wave whose tasks have ended: one of them has stopped the run, or the other waves follow. -/
theorem runWith_remaining (dispatch : DispatchArg)
    (h : ∀ t ∈ s.pool.tasks, t.phase.isEnded = true ∧ script t.step.stepName = []) (schedules : List (List Nat)) :
    (setup.remaining steps dispatch script [] schedules s).runWith onContext .ok s.shared.ctx =
      if s.pool.tasks.any DagSetup.stops then (.ok .failed, s.shared.ctx)
      else ((setup.dagEngine script).runWaves steps dispatch s.todo schedules).runWith onContext .ok s.shared.ctx := by
  have hstops : ((s.pool.tasks.map StepTask.step).zip (s.pool.tasks.map StepTask.outcome)).any
      (fun (step, r) => DagEngine.aborts step r) = s.pool.tasks.any DagSetup.stops := by
    rw [zip_map', any_map, Bool.eq_iff_iff, any_eq_true, any_eq_true]
    refine exists_congr fun t => and_congr_right fun ht => ?_
    rw [← StepTask.aborts_outcome (h t ht).1]
    rfl
  rw [DagSetup.remaining, Prog.gather, Prog.runWith_bind_ok (runWith_settleAll setup h s.shared.ctx), hstops]
  split <;> rfl

variable {dispatch : DispatchArg} {sched : List Nat} {schedules : List (List Nat)} {out : Except PyErr DagStatus × DagContext}

/-- A turn is a command of what is left: it goes to the front of the script of its step, whose name nobody else has. -/
theorem exists_script_turn {before after : List StepTask} {t t' : StepTask} {i : Signal}
    (hrun : (setup.remaining steps dispatch script sched schedules s').runWith onContext .ok s'.shared.ctx = out)
    (htasks : s.pool.tasks = before ++ t :: after) (htasks' : s'.pool.tasks = before ++ t' :: after)
    (hr : setup.resume i t s.shared = some (t', s'.shared)) (htodo : s'.todo = s.todo)
    (hn : (s.pool.tasks.map (·.step.stepName) ++ s.todo.flatten).Nodup) : ∃ script',
      (setup.remaining steps dispatch script' (before.length :: sched) schedules s).runWith onContext .ok s.shared.ctx = out := by
  let script' : Script := Function.update script t.step.stepName ((i, s.shared.trace) :: script t.step.stepName)
  have hsteps : s'.pool.tasks.map StepTask.step = s.pool.tasks.map StepTask.step := by
    rw [htasks, htasks', map_append, map_append, map_cons, map_cons, (resume_eq_some hr).1]
  rw [htasks, map_append, map_cons, append_assoc, cons_append, nodup_middle, nodup_cons, ← append_assoc,
    ← map_append] at hn
  have hupdate : ∀ name ∈ (before ++ after).map (·.step.stepName) ++ s.todo.flatten, script' name = script name := by
    intro name hm
    have hne : name ≠ t.step.stepName := fun he => hn.1 (he ▸ hm)
    exact Function.update_of_ne hne ..
  have hturn := runWith_turn script' hr (Function.update_self ..)
    (fun u hu => hupdate _ (mem_append_left _ (mem_map_of_mem hu))) sched
  refine ⟨script', ?_⟩
  rw [← hrun, DagSetup.remaining, DagSetup.remaining, hsteps, htodo, htasks', Prog.runWith_bind, Prog.runWith_bind]
  rw [htasks, hturn, runWaves_congr dispatch fun name hm => hupdate name (mem_append_right _ hm)]

/-- After a wave the next one is left; the steps of this one are told nothing more. -/
theorem exists_script_wave {wave : List String}
    (hrun : (setup.remaining steps dispatch script sched schedules s').runWith onContext .ok s'.shared.ctx = out)
    (hall : ∀ t ∈ s.pool.tasks, t.phase.isEnded = true) (hgo : ∀ t ∈ s.pool.tasks, DagSetup.stops t = false)
    (htodo : s.todo = wave :: s'.todo) (hspawn : s'.pool.tasks = (setup.engine steps).spawn wave) (hsh : s'.shared = s.shared)
    (hn : (s.pool.tasks.map (·.step.stepName) ++ s.todo.flatten).Nodup) : ∃ script',
      (setup.remaining steps dispatch script' [] (sched :: schedules) s).runWith onContext .ok s.shared.ctx = out := by
  let script' : Script := fun name => if name ∈ s.pool.tasks.map (·.step.stepName) then [] else script name
  obtain ⟨-, -, hdis⟩ := nodup_append.mp hn
  have hscript : ∀ name ∈ s.todo.flatten, script' name = script name := fun name hm =>
    if_neg fun hp => hdis name hp name hm rfl
  refine ⟨script', ?_⟩
  rw [runWith_remaining dispatch fun t ht => ⟨hall t ht, if_pos (mem_map_of_mem ht)⟩, if_neg (not_any_stops hgo),
    runWaves_congr dispatch hscript, ← hrun, htodo, hsh, remaining_spawn dispatch hspawn]

/-- The outcome of a run from any state on, as an execution of what is left. -/
theorem exists_remaining (dispatch : DispatchArg) {v : Bool} (h : (setup.engine steps).Reach A s s')
    (hv : s'.verdict = some v) (hs : s.verdict = none) (hk : ∀ x ∈ s.todo.flatten, x ∈ names steps)
    (hn : (s.pool.tasks.map (·.step.stepName) ++ s.todo.flatten).Nodup) :
    ∃ script sched schedules, (setup.remaining steps dispatch script sched schedules s).runWith onContext .ok s.shared.ctx =
      (.ok (if v then .completed else .failed), s'.shared.ctx) := by
  induction h using Relation.ReflTransGen.head_induction_on with
  | refl => cases hs.symm.trans hv
  | @head s s₁ hnext hrest ih =>
    rcases ForkJoin.next_cases hnext with
      ⟨j, i, t, t', before, after, shared, -, htasks, hr, -, htasks', heq⟩ | ⟨-, hall, rfl⟩
    · have htodo : s₁.todo = s.todo := by rw [heq]
      have hsh : shared = s₁.shared := by rw [heq]
      have hnames : s₁.pool.tasks.map (·.step.stepName) = s.pool.tasks.map (·.step.stepName) := by
        rw [htasks, htasks', map_append, map_append, map_cons, map_cons, (resume_eq_some hr).1]
      obtain ⟨script, sched, schedules, hrun⟩ := ih (by rw [heq, hs]) (htodo ▸ hk) (by rw [hnames, htodo]; exact hn)
      obtain ⟨script', hturn⟩ := exists_script_turn hrun htasks htasks' (hsh ▸ hr) htodo hn
      exact ⟨script', before.length :: sched, schedules, hturn⟩
    · rcases ForkJoin.gather_cases (setup.engine steps) s with ⟨hstop, he⟩ | ⟨hgo, ⟨hnil, he⟩ | ⟨wave, rest, hcons, he⟩⟩
      · have hany : s.pool.tasks.any DagSetup.stops = true := any_eq_true.mpr hstop
        rw [he] at hrest
        obtain rfl := reach_of_verdict hrest (Option.some_ne_none _) hall
        obtain rfl := Option.some.inj hv
        refine ⟨fun _ => [], [], [], ?_⟩
        rw [runWith_remaining dispatch fun t ht => ⟨hall t ht, rfl⟩, if_pos hany]
        rfl
      · rw [he] at hrest
        obtain rfl := reach_of_verdict hrest (Option.some_ne_none _) hall
        obtain rfl := Option.some.inj hv
        refine ⟨fun _ => [], [], [], ?_⟩
        rw [runWith_remaining dispatch fun t ht => ⟨hall t ht, rfl⟩, if_neg (not_any_stops hgo), hnil]
        rfl
      · have hknown := hcons ▸ hk
        have hlater := (nodup_append.mp hn).2.1
        rw [hcons] at hlater
        rw [he] at ih
        obtain ⟨script, sched, schedules, hrun⟩ := ih hs (fun x hx => hknown x (mem_append_right _ hx))
          (by rw [names_spawn fun x hx => hknown x (mem_append_left _ hx)]; exact hlater)
        obtain ⟨script', hwave⟩ := exists_script_wave hrun hall hgo hcons rfl rfl hn
        exact ⟨script', [], sched :: schedules, hwave⟩

end

/-- Every run of a DAG that comes to its verdict is an execution of the engine that the executor drives. -/
theorem execute_of_reaches {setup : DagSetup} {A : StepTask → Signal → Prop} {dag : DagDefinition} {r : DagRun}
    {ctx : DagContext} (h : setup.Reaches A dag [] r) (hr : r.result = some ctx) (dispatch : DispatchArg) :
    ∃ (script : Script) (schedules : List (List Nat)), ∀ w : World,
      ((setup.dagEngine script).execute schedules (some dag) dispatch).runWith Command.apply .ok w = (.ok ctx, w) := by
  obtain ⟨start, hstart, hreach⟩ := h
  obtain ⟨ctx₀, hctx₀, rfl⟩ := execute_eq_ok hstart
  obtain rfl := Except.ok.inj hctx₀
  obtain ⟨v, hv, rfl⟩ := Option.map_eq_some_iff.mp hr
  cases horder : DagEngine.topoSort dag.steps with
  | nil =>
    rw [horder] at hreach
    obtain rfl := reach_of_verdict hreach (Option.some_ne_none _) (fun t ht => absurd ht not_mem_nil)
    obtain rfl := Option.some.inj hv
    refine ⟨fun _ => [], [], fun w => ?_⟩
    simp only [DagEngine.execute, horder]
    rfl
  | cons wave todo =>
    have hn := DagEngine.topoSort_nodup dag.steps
    rw [horder] at hreach hn
    have hk : ∀ x ∈ (wave :: todo).flatten, x ∈ names dag.steps := fun x hx =>
      mem_names_of_mem_topoSort (horder ▸ hx)
    have hnames : ((setup.engine dag.steps).spawn wave).map (·.step.stepName) = wave :=
      names_spawn fun x hx => hk x (mem_append_left _ hx)
    obtain ⟨script, sched, schedules, hrun⟩ := exists_remaining dispatch hreach hv rfl
      (fun x hx => hk x (mem_append_right _ hx)) (hnames.symm ▸ hn)
    rw [remaining_spawn dispatch rfl] at hrun
    refine ⟨script, sched :: schedules, fun w => ?_⟩
    simp only [DagEngine.execute, horder, if_neg (cons_ne_nil wave todo)]
    have hlocal := (Prog.runWith_runLocal (fun w => rfl : ∀ w, Command.apply .read .ok w = w) _ _ w).trans
      (congrArg (Except.ok ·, w) hrun)
    exact Prog.runWith_bind_ok hlocal _

end AsyncScheduler
