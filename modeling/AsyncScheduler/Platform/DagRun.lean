import AsyncScheduler.Platform.DagEngine
import AsyncScheduler.Platform.DagStep

/-!
# Runs of a DAG

`DagEngine.execute` as waves of tasks under a semaphore. A task is a step and the place where its
`_run_step` waits.
-/

namespace AsyncScheduler

/-- Where `_run_step` waits. -/
inductive Phase where
  | created
  -- For the semaphore
  | waiting (input : JsonObj)
  -- The semaphore has been acquired
  | inside (input : JsonObj)
  -- For an answer
  | calling (input : JsonObj) (attempt : Nat)
  -- Before the next attempt
  | sleeping (input : JsonObj) (attempt : Nat)
  -- For the items of a MAP step
  | mapping (coll : String) (input : JsonObj) (pool : Pool MapItem)
  | streaming (trigger : StreamingTrigger) (input : JsonObj) (ph : StreamPhase)
  -- For the store
  | saving (result : JsonValue)
  | ended (outcome : Except PyErr JsonValue)

namespace Phase

def holds : Phase → Bool
  | .inside _ | .calling _ _ | .sleeping _ _ | .mapping _ _ _ | .streaming _ _ _ => true
  | _ => false

def isEnded : Phase → Bool
  | .ended _ => true
  | _ => false

theorem exists_of_isEnded {ph : Phase} (h : ph.isEnded = true) : ∃ outcome, ph = .ended outcome := by
  cases ph with
  | ended outcome => exact ⟨outcome, rfl⟩
  | _ => cases h

end Phase

structure StepTask where
  step : DagStep
  phase : Phase := .created

inductive Signal where
  | go
  | reply (outcome : Except PyErr JsonValue)
  | item (i : Nat) (s : ItemSignal)
  | stream (s : StreamSignal)
  | saved (outcome : Except PyErr Unit)

namespace DagSetup
variable (setup : DagSetup) (step : DagStep)

def finish (outcome : Except PyErr JsonValue) (sh : DagShared) : Phase × DagShared :=
  (.ended outcome, sh.note (.ended step.stepName outcome))

def leave (outcome : Except PyErr JsonValue) (sh : DagShared) : Phase × DagShared :=
  match outcome with
  | .error e => finish step (.error e) sh
  | .ok result =>
    match step.record result sh.ctx with
    | .error e => finish step (.error e) sh
    | .ok ctx =>
      if setup.hasStore then (.saving result, { sh with ctx }) else finish step (.ok result) { sh with ctx }

def call (input : JsonObj) (attempt : Nat) (sh : DagShared) : Phase × DagShared :=
  (.calling input attempt, sh.note (.called step.stepName (step.request input)))

def enter (input : JsonObj) (sh : DagShared) : Phase × DagShared :=
  match step.mapKey with
  | some coll =>
    let items := DagStep.mapItems coll input sh.ctx
    (.mapping coll input (step.mapPool items), sh.note (.mapped step.stepName items))
  | none =>
    match step.trigger with
    | some trigger => (.streaming trigger input .opening,
        sh.note (.called step.stepName (.dispatch step.capability step.stepName (enriched trigger input sh))))
    | none => if step.attempts = 0 then setup.leave step (.ok (.obj [])) sh else call step input 0 sh

def answered (input : JsonObj) (attempt : Nat) (outcome : Except PyErr JsonValue)
    (sh : DagShared) : Phase × DagShared :=
  match outcome with
  | .ok v => setup.leave step (.ok v) sh
  | .error e =>
    if !e.isException then setup.leave step (.error e) sh
    else if attempt + 1 < step.attempts then (.sleeping input (attempt + 1), sh)
    else setup.leave step (step.resolve e) sh

def streamed (trigger : StreamingTrigger) (input : JsonObj) : StreamTurn → Phase × DagShared
  | .go ph sh => (.streaming trigger input ph, sh)
  | .leave outcome sh => setup.leave step outcome sh

/-- `_run_step`, from one point where it waits to the next. -/
def runStep : Signal → Phase → DagShared → Option (Phase × DagShared)
  | .go, .created, sh =>
    if step.skipped setup.parse sh.ctx then
      some (finish step (.ok (.obj []))
        { sh with ctx := { sh.ctx with completedSteps := sh.ctx.completedSteps ++ [step.stepName] } })
    else some (.waiting (step.buildInput sh.ctx), sh)
  | .go, .waiting input, sh => some (.inside input, sh)
  | .go, .inside input, sh => some (setup.enter step input sh)
  | .reply outcome, .calling input attempt, sh =>
    some (setup.answered step input attempt outcome (sh.note (.replied step.stepName none outcome)))
  | .go, .sleeping input attempt, sh => some (call step input attempt sh)
  | .item i s, .mapping coll input pool, sh =>
    ((step.mapCrew coll input).turn i s pool sh).map fun r => (.mapping coll input r.1, r.2)
  | .go, .mapping coll input pool, sh =>
    if pool.tasks.all (step.mapCrew coll input).ended then some (setup.leave step (step.collect pool.tasks) sh)
    else none
  | .stream s, .streaming trigger input ph, sh =>
    (setup.streamResume step trigger input s ph sh).map (setup.streamed step trigger input)
  | .saved outcome, .saving result, sh => some (finish step (outcome.map fun _ => result) sh)
  | _, _, _ => none

def resume (signal : Signal) (t : StepTask) (sh : DagShared) : Option (StepTask × DagShared) :=
  (setup.runStep t.step signal t.phase sh).map fun r => (⟨t.step, r.1⟩, r.2)

/-- A failed step that makes `execute` return. -/
def stops (t : StepTask) : Bool :=
  match t.phase with
  | .ended (.error e) => e.isException && t.step.onFailure = .abort
  | _ => false

def engine (steps : List DagStep) : ForkJoin DagShared StepTask Signal (List String) where
  resume := setup.resume
  holds t := t.phase.holds
  ended t := t.phase.isEnded
  spawn wave := (wave.filterMap (DagEngine.stepNamed steps)).map fun s => ⟨s, .created⟩
  stops := stops

/-- `min(self._max_parallelism, dag_def.max_concurrent or self._max_parallelism)`. -/
def limit (maxConcurrent : Option Int) : Int :=
  min setup.maxParallelism (match maxConcurrent with
    | some n => if n = 0 then setup.maxParallelism else n
    | none => setup.maxParallelism)

end DagSetup

/-- The context of a new run; `task_id` has to be a string. -/
def DagDefinition.newContext (dag : DagDefinition) (initial : JsonObj) : Except PyErr DagContext :=
  let ctx : DagContext :=
    { taskId := dag.dagId, dagId := dag.dagId, tenantId := dag.tenantId, inputData := initial, context := initial,
      status := .running }
  match initial.lookup "task_id" with
  | some (.str s) => .ok (if s = "" then ctx else { ctx with taskId := s })
  | some v => if v.truthy then .error (.valueError "1 validation error for DagContext") else .ok ctx
  | none => .ok ctx

abbrev DagRun := ForkJoin.State DagShared StepTask (List String)

namespace DagSetup
variable (setup : DagSetup)

/-- `execute` up to the creation of the first tasks. -/
def execute (dag : DagDefinition) (initial : JsonObj) : Except PyErr DagRun :=
  (dag.newContext initial).bind fun ctx =>
    if DagEngine.topoSort dag.steps ≠ [] ∧ setup.limit dag.maxConcurrent < 0 then
      .error (.valueError "Semaphore initial value must be >= 0")
    else .ok ((setup.engine dag.steps).start { ctx } (setup.limit dag.maxConcurrent).toNat
      (DagEngine.topoSort dag.steps))

end DagSetup

/-- What `execute` returns. -/
def DagRun.result (r : DagRun) : Option DagContext :=
  r.verdict.map fun completed => { r.shared.ctx with status := if completed then .completed else .failed }

end AsyncScheduler
