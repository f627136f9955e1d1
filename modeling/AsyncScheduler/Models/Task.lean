import AsyncScheduler.Common.ErrorHandling
import AsyncScheduler.Shared.Table
import Mathlib.Data.Rat.Defs
import Mathlib.Data.String.Basic

/-!
# Tasks

The task row of the database, the record an insert sends and the checks the table makes on it, and
the task document cached in Redis.
-/

namespace AsyncScheduler

inductive TaskStatus where
  | pending | scheduled | queued | running | completed | failed | cancelled
  deriving DecidableEq, Repr

inductive TaskPriority where
  | veryHigh | high | normal | low | tide
  deriving DecidableEq, Repr

/-- `str.lower` on the texts compared here. -/
def lower (s : String) : String := String.ofList (s.toList.map Char.toLower)

def slice (s : String) (n : Nat) : String := String.ofList (s.toList.take n)

/-- An optional text, if it is true: not `None` and not empty. -/
def given (s : Option String) : Option String := s.filter (· ≠ "")

theorem given_some {s : String} (h : s ≠ "") : given (some s) = some s := by simp [given, h]

namespace TaskStatus

def value : TaskStatus → String
  | pending => "pending"
  | scheduled => "scheduled"
  | queued => "queued"
  | running => "running"
  | completed => "completed"
  | failed => "failed"
  | cancelled => "cancelled"

def all : List TaskStatus := [pending, scheduled, queued, running, completed, failed, cancelled]

/-- What the column stores for a text; the enumeration is compared without case. -/
def ofText (s : String) : Option TaskStatus := all.find? (·.value = lower s)

end TaskStatus

namespace TaskPriority

def value : TaskPriority → String
  | veryHigh => "very_high"
  | high => "high"
  | normal => "normal"
  | low => "low"
  | tide => "tide"

def all : List TaskPriority := [veryHigh, high, normal, low, tide]

def ofValue (s : String) : Option TaskPriority := all.find? (·.value = s)

def weight : TaskPriority → Int
  | veryHigh => 1
  | high => 2
  | normal => 3
  | low => 4
  | tide => 5

end TaskPriority

structure TaskRecord where
  taskId : String
  tenantId : String
  taskType : String
  status : TaskStatus
  priority : TaskPriority
  inputData : Option String
  outputData : Option String
  errorMessage : Option String
  metadataJson : Option String
  callbackUrl : Option String
  idempotencyKey : Option String
  timeoutSeconds : Int
  maxRetries : Int
  attempt : Int
  scheduledAt : Option String
  cronExpr : Option String
  createdAt : ℚ
  updatedAt : ℚ
  deriving DecidableEq, Repr

/-- The attributes given to `TaskRecord(...)`; the others take the column's default. -/
structure TaskInsert where
  taskId : String
  tenantId : String
  taskType : Option String := none
  status : String
  priority : TaskPriority := .normal
  inputData : Option String := none
  outputData : Option String := none
  errorMessage : Option String := none
  metadataJson : Option String := none
  callbackUrl : Option String := none
  idempotencyKey : Option String := none
  timeoutSeconds : Int := 3600
  maxRetries : Int := 3
  scheduledAt : Option String := none
  cronExpr : Option String := none
  deriving DecidableEq, Repr

namespace TaskInsert

def columns (r : TaskInsert) : List (String × Nat × String) :=
  [("task_id", 64, r.taskId), ("tenant_id", 64, r.tenantId), ("task_type", 128, r.taskType.getD ""),
    ("callback_url", 512, r.callbackUrl.getD ""), ("idempotency_key", 128, r.idempotencyKey.getD ""),
    ("cron_expr", 64, r.cronExpr.getD "")]

def toRow (r : TaskInsert) (now : ℚ) : Except PyErr TaskRecord :=
  match r.taskType with
  | none => .error (.integrityError "Column 'task_type' cannot be null")
  | some taskType =>
    match r.columns.find? fun (_, width, text) => width < text.length with
    | some (name, _, _) => .error (.dataError ("Data too long for column '" ++ name ++ "'"))
    | none =>
      match TaskStatus.ofText r.status with
      | none => .error (.dataError "Data truncated for column 'status'")
      | some status => .ok {
          taskId := r.taskId, tenantId := r.tenantId, taskType, status, priority := r.priority,
          inputData := r.inputData, outputData := r.outputData, errorMessage := r.errorMessage,
          metadataJson := r.metadataJson, callbackUrl := r.callbackUrl,
          idempotencyKey := r.idempotencyKey, timeoutSeconds := r.timeoutSeconds,
          maxRetries := r.maxRetries, attempt := 0, scheduledAt := r.scheduledAt,
          cronExpr := r.cronExpr, createdAt := now, updatedAt := now }

end TaskInsert

/-- The JSON document under `task:{id}`; a field that is absent is `none`, and JSON
values are kept as their text. -/
structure TaskDoc where
  taskId : Option String := none
  tenantId : Option String := none
  status : Option String := none
  createdAtTs : Option ℚ := none
  capability : Option String := none
  taskType : Option String := none
  priorityRank : Option Int := none
  priority : Option String := none
  inputData : Option String := none
  output : Option String := none
  error : Option String := none
  errorMessage : Option String := none
  metadata : Option String := none
  callbackUrl : Option String := none
  idempotencyKey : Option String := none
  timeoutSeconds : Option Int := none
  maxRetries : Option Int := none
  attempt : Option Int := none
  scheduledAt : Option String := none
  cronExpr : Option String := none
  createdAt : Option ℚ := none
  updatedAt : Option ℚ := none
  deriving DecidableEq, Repr

namespace TaskDoc

def statusText (t : TaskDoc) : String := lower (t.status.getD "")

def idText (t : TaskDoc) : String := t.taskId.getD ""

end TaskDoc

/-- `_json_load_or_default(v, {})` on a text column written by `json.dumps`. -/
def jsonLoadOrDefault : Option String → String
  | none => "\x7b\x7d"
  | some s => if s = "" then "\x7b\x7d" else s

def TaskRecord.payload (row : TaskRecord) : TaskDoc where
  taskId := row.taskId
  tenantId := row.tenantId
  status := row.status.value
  capability := row.taskType
  priority := row.priority.value
  inputData := jsonLoadOrDefault row.inputData
  output := jsonLoadOrDefault row.outputData
  errorMessage := row.errorMessage
  metadata := jsonLoadOrDefault row.metadataJson
  callbackUrl := row.callbackUrl.getD ""
  idempotencyKey := row.idempotencyKey
  timeoutSeconds := some (if row.timeoutSeconds = 0 then 3600 else row.timeoutSeconds)
  maxRetries := some (if row.maxRetries = 0 then 3 else row.maxRetries)
  attempt := row.attempt
  scheduledAt := row.scheduledAt
  cronExpr := row.cronExpr
  createdAt := row.createdAt
  updatedAt := row.updatedAt

inductive TaskEvent where
  | create | schedule | enqueue | start | complete | fail | cancel | requeue | staleFail
  deriving DecidableEq, Repr

def TaskEvent.value : TaskEvent → String
  | create => "create"
  | schedule => "schedule"
  | enqueue => "enqueue"
  | start => "start"
  | complete => "complete"
  | fail => "fail"
  | cancel => "cancel"
  | requeue => "requeue"
  | staleFail => "stale_fail"

namespace TaskStateMachine

/-- The table `_ALLOWED`. -/
def allowed : TaskStatus → TaskEvent → Option TaskStatus
  | .pending, .schedule => some .scheduled
  | .pending, .enqueue => some .queued
  | .scheduled, .enqueue => some .queued
  | .queued, .start => some .running
  | .running, .complete => some .completed
  | .running, .fail => some .failed
  | .running, .staleFail => some .failed
  | .running, .requeue => some .queued
  | .queued, .cancel => some .cancelled
  | _, _ => none

def transition (current : TaskStatus) (event : TaskEvent) : Except PyErr TaskStatus :=
  match allowed current event with
  | some next => .ok next
  | none => .error (.invalidTaskTransition
      ("illegal task transition: " ++ current.value ++ " --" ++ event.value ++ "--> ?"))

end TaskStateMachine

end AsyncScheduler
