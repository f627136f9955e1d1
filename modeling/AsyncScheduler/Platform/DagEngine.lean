import AsyncScheduler.Platform.World

/-!
# DAG engine

Topological waves and their execution.
-/

namespace AsyncScheduler

/-- What a caller passes as the second argument: a dispatch function, or the dict of a
dequeued task, which is none. -/
inductive DispatchArg where
  | function (name : String)
  | taskData (taskId capability : String)
  deriving DecidableEq, Repr

abbrev StepProg (α : Type) := Prog (DagContext → DagContext) Fault DagContext PyErr α

structure DagEngine where
  runStep : DagStep → DispatchArg → StepProg Unit

namespace DagEngine

/-- `d[k] = v` in a dict: an existing key keeps its place. -/
def upsert (d : List (String × Int)) (k : String) (v : Int) : List (String × Int) :=
  if d.any (·.1 = k) then d.map fun e => if e.1 = k then (k, v) else e else d ++ [(k, v)]

def inDegree (steps : List DagStep) : List (String × Int) :=
  steps.foldl (fun d s => upsert d s.stepName s.dependsOn.length) []

/-- `adj[name]`: one entry for each time a step lists the name as a dependency. -/
def neighbours (steps : List DagStep) (name : String) : List String :=
  steps.flatMap fun s => (s.dependsOn.filter (· = name)).map fun _ => s.stepName

def relax : List (String × Int) × List String → String → List (String × Int) × List String
  | (degrees, nextQ), nbr =>
    let degree := (degrees.lookup nbr).getD 0 - 1
    (upsert degrees nbr degree, if degree = 0 then nextQ ++ [nbr] else nextQ)

/-- A name joins at most one wave, so the number of steps bounds the number of waves. -/
def wavesFrom (steps : List DagStep) : Nat → List (String × Int) → List String → List (List String)
  | 0, _, _ => []
  | fuel + 1, degrees, queue =>
    if queue = [] then []
    else
      let (degrees', nextQ) := (queue.flatMap (neighbours steps)).foldl relax (degrees, [])
      queue :: wavesFrom steps fuel degrees' nextQ

def topoSort (steps : List DagStep) : List (List String) :=
  let degrees := inDegree steps
  wavesFrom steps steps.length degrees ((degrees.filter (·.2 = 0)).map Prod.fst)

/-- `step_map[name]`: the last step of that name. -/
def stepNamed (steps : List DagStep) (name : String) : Option DagStep :=
  steps.reverse.find? (·.stepName = name)

def aborts (step : DagStep) : Except PyErr Unit → Bool
  | .ok _ => false
  | .error e => e.isException ∧ step.onFailure = .abort

def runWaves (e : DagEngine) (steps : List DagStep) (dispatch : DispatchArg) :
    List (List String) → List (List Nat) → StepProg DagStatus
  | [], _ => .ret .completed
  | wave :: rest, schedules =>
    let waveSteps := wave.filterMap (stepNamed steps)
    (Prog.gather Fault.interrupt (schedules.headD []) (waveSteps.map (e.runStep · dispatch))).bind
      fun results =>
        if (waveSteps.zip results).any fun (step, r) => aborts step r then .ret .failed
        else e.runWaves steps dispatch rest schedules.tail

def execute (e : DagEngine) (schedules : List (List Nat)) (dagDef : Option DagDefinition)
    (dispatch : DispatchArg) : Py DagContext :=
  match dagDef with
  | none => .raise (.attributeError "'NoneType' object has no attribute 'dag_id'")
  | some dag =>
    let ctx : DagContext :=
      { taskId := dag.dagId, dagId := dag.dagId, tenantId := dag.tenantId, status := .running }
    let order := topoSort dag.steps
    if order = [] then
      pure { ctx with status := .completed }
    else do
      let (outcome, ctx') ← Prog.runLocal (fun f _ s => f s) .read ctx
        (e.runWaves dag.steps dispatch order schedules)
      match outcome with
      | .ok status => pure { ctx' with status }
      | .error err => .raise err

end DagEngine

end AsyncScheduler
