import AsyncScheduler.Shared.JsonValue

/-!
# DAG definitions

Steps with everything that their scheduling and execution read, and the context an execution leaves
behind.
-/

namespace AsyncScheduler

inductive ExecutionMode where
  | sync | async | flaskWrapped
  deriving DecidableEq, Repr

inductive OnFailureAction where
  | abort | skip | fallback
  deriving DecidableEq, Repr

inductive MapErrorPolicy where
  | abortAll | «continue»
  deriving DecidableEq, Repr

inductive StepKind where
  | task | dispatch | collector | map | streaming
  deriving DecidableEq, Repr

inductive DagStatus where
  | pending | running | completed | failed | cancelled
  deriving DecidableEq, Repr

/-- A dict from fields to fields. -/
structure Mapping where
  entries : List (String × String)
  distinct : (entries.map Prod.fst).Nodup
  deriving DecidableEq, Repr

namespace Mapping

def empty : Mapping := ⟨[], List.nodup_nil⟩

def single (dst src : String) : Mapping := ⟨[(dst, src)], List.pairwise_singleton _ dst⟩

def keys (m : Mapping) : List String := m.entries.map Prod.fst

def sources (m : Mapping) : List String := m.entries.map Prod.snd

end Mapping

structure RetryPolicy where
  maxRetries : Int := 0
  deriving DecidableEq, Repr

structure FlaskStepConfig where
  url : String := ""
  deriving DecidableEq, Repr

structure FallbackConfig where
  outputMapping : Mapping := .empty
  deriving DecidableEq, Repr

structure StreamingTrigger where
  bufferKey : String
  flushOnComplete : Bool := true
  downstreamSteps : List String := []
  deriving DecidableEq, Repr

structure DagStep where
  stepName : String
  capability : String
  stepKind : StepKind := .task
  dependsOn : List String := []
  executionMode : ExecutionMode := .sync
  timeoutSeconds : Nat := 60
  retryPolicy : RetryPolicy := {}
  inputMapping : Mapping := .empty
  outputMapping : Mapping := .empty
  condition : Option String := none
  onFailure : OnFailureAction := .abort
  fallback : Option FallbackConfig := none
  flask : Option FlaskStepConfig := none
  mapOver : Option String := none
  maxConcurrency : Nat := 0
  mapErrorPolicy : MapErrorPolicy := .abortAll
  streamingTrigger : Option StreamingTrigger := none
  deriving DecidableEq, Repr

structure DagDefinition where
  dagId : String
  tenantId : String := ""
  steps : List DagStep := []
  maxConcurrent : Option Int := none
  deriving DecidableEq, Repr

structure DagContext where
  taskId : String
  dagId : String
  tenantId : String := ""
  inputData : JsonObj := []
  context : JsonObj := []
  stepResults : JsonObj := []
  completedSteps : List String := []
  status : DagStatus := .pending
  deriving DecidableEq, Repr

end AsyncScheduler
