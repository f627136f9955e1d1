import AsyncScheduler.Platform.World

/-!
# Task queries and cancellation

The services behind the query and cancel endpoints. They read and write the row of the task and
nothing else.
-/

namespace AsyncScheduler

structure TaskInfo where
  taskId : String
  tenantId : String
  taskType : String
  status : TaskStatus
  priority : TaskPriority
  inputData : String
  outputData : String
  metadataJson : String
  callbackUrl : Option String
  idempotencyKey : Option String
  timeoutSeconds : Int
  maxRetries : Int
  scheduledAt : Option String
  cronExpr : Option String
  createdAt : ℚ
  updatedAt : ℚ
  attempt : Int := 0
  deriving DecidableEq, Repr

/-- `_to_task_info`; a limit of zero is replaced by its default, and the attempt is left at its own. -/
def toTaskInfo (task : TaskRecord) : TaskInfo where
  taskId := task.taskId
  tenantId := task.tenantId
  taskType := task.taskType
  status := task.status
  priority := task.priority
  inputData := jsonLoadOrDefault task.inputData
  outputData := jsonLoadOrDefault task.outputData
  metadataJson := jsonLoadOrDefault task.metadataJson
  callbackUrl := task.callbackUrl
  idempotencyKey := task.idempotencyKey
  timeoutSeconds := if task.timeoutSeconds = 0 then 3600 else task.timeoutSeconds
  maxRetries := if task.maxRetries = 0 then 3 else task.maxRetries
  scheduledAt := task.scheduledAt
  cronExpr := task.cronExpr
  createdAt := task.createdAt
  updatedAt := task.updatedAt

structure TaskCancelResponse where
  taskId : String
  cancelled : Bool
  priorStatus : TaskStatus
  deriving DecidableEq, Repr

def TaskAccessPolicy.ensureTaskAccess (task : Option TaskRecord) (tenantId : String)
    (isSuperAdmin : Bool) : Except PyErr TaskRecord :=
  match task with
  | none => .error (.httpException 404 "Task not found")
  | some row =>
    if !isSuperAdmin ∧ row.tenantId ≠ tenantId then .error (.httpException 404 "Task not found")
    else .ok row

namespace TaskQueryService

def getTaskRecord (taskId tenantId : String) (isSuperAdmin : Bool) : Py TaskRecord :=
  await .read fun w => TaskAccessPolicy.ensureTaskAccess (w.db.tasks.find taskId) tenantId isSuperAdmin

end TaskQueryService

namespace TaskCancellationService

def cancel (taskId tenantId : String) (isSuperAdmin : Bool) : Py TaskCancelResponse := do
  let task ← TaskQueryService.getTaskRecord taskId tenantId isSuperAdmin
  let prior := task.status
  if prior = .completed ∨ prior = .failed ∨ prior = .cancelled then
    pure ⟨taskId, false, prior⟩
  else
    match TaskStateMachine.transition prior .cancel with
    | .error _ => pure ⟨taskId, false, prior⟩
    | .ok next => do
      commit [.setStatus taskId next]
      pure ⟨taskId, true, prior⟩

end TaskCancellationService

end AsyncScheduler
