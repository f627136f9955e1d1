import AsyncScheduler.Platform.TaskCreator

/-!
# Task submission

The service behind the create endpoint: the request, its validation, the arguments it becomes and
the answer.
-/

namespace AsyncScheduler

/-- The body of a request; the bounds are those of its schema. -/
structure TaskCreate where
  taskType : String
  priority : TaskPriority := .normal
  inputData : String := "\x7b\x7d"
  metadata : String := "\x7b\x7d"
  callbackUrl : Option String := none
  idempotencyKey : Option String := none
  timeoutSeconds : Int := 3600
  maxRetries : Int := 3
  scheduledAt : Option String := none
  delaySeconds : Option Int := none
  cronExpr : Option String := none
  artifactUrl : Option String := none
  artifactSha256 : Option String := none
  taskType_length : 1 ≤ taskType.length ∧ taskType.length ≤ 128 := by decide
  timeout_bounds : 1 ≤ timeoutSeconds ∧ timeoutSeconds ≤ 86400 := by decide
  retries_bounds : 0 ≤ maxRetries ∧ maxRetries ≤ 20 := by decide

structure TaskCreateResponse where
  taskId : String
  tenantId : String
  status : TaskStatus
  clusterId : String := ""
  estimatedWaitSeconds : Int := 0
  queuePosition : Int
  scheduledAt : String := ""
  idempotentReused : Bool
  deriving DecidableEq, Repr

def validateTaskArtifact (artifactUrl artifactSha256 : Option String) : Except PyErr Unit :=
  match given artifactUrl, given artifactSha256 with
  | some _, some sha =>
    if sha.length ≠ 64 then .error (.valueError "artifact_sha256 must be a 64-char hex string") else .ok ()
  | _, _ => .ok ()

def validateTaskScheduling (scheduledAt : Option String) (delaySeconds : Option Int) : Except PyErr Unit :=
  if scheduledAt.isSome ∧ delaySeconds.isSome then
    .error (.valueError "Cannot specify both scheduled_at and delay_seconds; use only one.")
  else
    .ok ()

namespace TaskCreate

def validate (req : TaskCreate) : Except PyErr Unit := do
  validateTaskArtifact req.artifactUrl req.artifactSha256
  validateTaskScheduling req.scheduledAt req.delaySeconds

/-- The keyword arguments; those of the schedule are passed on only if they are true. -/
def kwargs (req : TaskCreate) : TaskKwargs where
  taskType := some req.taskType
  priority := some req.priority.value
  inputData := some req.inputData
  metadata := some req.metadata
  callbackUrl := req.callbackUrl
  timeoutSeconds := some req.timeoutSeconds
  maxRetries := some req.maxRetries
  cronExpr := req.cronExpr
  persistToDb := some true
  scheduledAt := given req.scheduledAt
  delaySeconds := (req.delaySeconds.filter (· ≠ 0)).map Int.cast

end TaskCreate

def TaskSubmissionService.submit (cr : TaskCreator) (u : CreateInputs) (req : TaskCreate)
    (tenantId : String) : Py TaskCreateResponse :=
  match req.validate with
  | .error e => .raise e
  | .ok () => do
    let result ← cr.createTask u tenantId req.idempotencyKey req.kwargs
    match TaskStateMachine.transition .pending .enqueue with
    | .error e => .raise e
    | .ok status => pure {
        taskId := result.taskId, tenantId, status, queuePosition := result.queuePosition
        idempotentReused := result.idempotentReused }

end AsyncScheduler
