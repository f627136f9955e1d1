import AsyncScheduler.Common.Sha256
import AsyncScheduler.Models.Schedule
import AsyncScheduler.Platform.QueueManager
import AsyncScheduler.Services.Tracking

/-!
# Task creator

A task is looked up by its idempotency key, written to the database and then to Redis, enqueued, and
recorded.
-/

namespace AsyncScheduler

/-- The keyword arguments of a call; `none` is an argument that is not given. The tenant
and the idempotency key have parameters of their own, so they are never among these. -/
structure TaskKwargs where
  taskId : Option String := none
  status : Option String := none
  createdAtTs : Option ℚ := none
  taskType : Option String := none
  capability : Option String := none
  priorityRank : Option Int := none
  priority : Option String := none
  delaySeconds : Option ℚ := none
  inputData : Option String := none
  metadata : Option String := none
  callbackUrl : Option String := none
  timeoutSeconds : Option Int := none
  maxRetries : Option Int := none
  scheduledAt : Option String := none
  cronExpr : Option String := none
  persistToDb : Option Bool := none
  attempt : Option Int := none
  dagId : Option String := none
  deriving DecidableEq, Repr

structure CreateResult where
  taskId : String
  accepted : Bool
  queuePosition : Int
  pendingCount : Int
  idempotentReused : Bool := false
  deriving DecidableEq, Repr

structure CreateInputs where
  taskUuid : Uuid
  txUuid : Uuid
  runUuid : Uuid
  dagRunUuid : Uuid
  deriving DecidableEq, Repr

/-- With a database there is always a coordinator; the creator makes one if it is given none. -/
structure TaskCreator where
  hasDb : Bool
  queueManager : QueueManager
  coordinator : AtomicWriteCoordinator := {}
  deriving DecidableEq, Repr

namespace TaskKwargs

def capabilityName (kw : TaskKwargs) : String := kw.taskType.getD (kw.capability.getD "")

def priorityText (kw : TaskKwargs) : String := kw.priority.getD "normal"

def priorityNumber (kw : TaskKwargs) : Int :=
  match lower kw.priorityText with
  | "very_high" => 1
  | "high" => 2
  | "normal" => 3
  | "low" => 4
  | "tide" => 5
  | _ => 3

/-- The document for Redis; arguments of the same name replace its own entries. -/
def taskDoc (kw : TaskKwargs) (taskId tenantId : String) (now : ℚ) : TaskDoc where
  taskId := some (kw.taskId.getD taskId)
  tenantId := some tenantId
  status := some (kw.status.getD "queued")
  createdAtTs := some (kw.createdAtTs.getD now)
  capability := some (kw.capability.getD kw.capabilityName)
  taskType := kw.taskType
  priorityRank := some (kw.priorityRank.getD kw.priorityNumber)
  priority := kw.priority
  inputData := kw.inputData
  metadata := kw.metadata
  callbackUrl := kw.callbackUrl
  timeoutSeconds := kw.timeoutSeconds
  maxRetries := kw.maxRetries
  attempt := kw.attempt
  scheduledAt := kw.scheduledAt
  cronExpr := kw.cronExpr

/-- The row for the database. `kwargs.get("idempotency_key")` finds nothing. -/
def taskInsert (kw : TaskKwargs) (taskId tenantId : String) (priority : TaskPriority) : TaskInsert where
  taskId := taskId
  tenantId := tenantId
  taskType := some kw.capabilityName
  status := TaskStatus.queued.value
  priority := priority
  inputData := some (kw.inputData.getD "\x7b\x7d")
  metadataJson := some (kw.metadata.getD "\x7b\x7d")
  callbackUrl := kw.callbackUrl
  idempotencyKey := none
  timeoutSeconds := kw.timeoutSeconds.getD 3600
  maxRetries := kw.maxRetries.getD 3
  scheduledAt := kw.scheduledAt
  cronExpr := kw.cronExpr

end TaskKwargs

namespace TaskCreator

def deterministicId (idempotencyKey : String) : String :=
  let safeKey := slice (String.ofList (idempotencyKey.toList.map fun c => if c = ':' then '-' else c)) 60
  "cron-" ++ safeKey ++ "-" ++ slice (Sha256.hexdigest idempotencyKey) 16

def newTaskId (u : CreateInputs) (idempotencyKey : Option String) : String :=
  match given idempotencyKey with
  | some key => deterministicId key
  | none => u.taskUuid.text

/-- `scalar_one_or_none()` on the rows of a tenant with a key. -/
def findExisting (tenantId idempotencyKey : String) : Py (Option TaskRecord) :=
  session (await .read fun w =>
    match w.db.tasks.rows.filter fun r =>
        r.tenantId = tenantId ∧ r.idempotencyKey = some idempotencyKey with
    | [] => .ok none
    | [row] => .ok (some row)
    | _ => .error .multipleResultsFound)

def lookup (cr : TaskCreator) (tenantId : String) (idempotencyKey : Option String) : Py (Option TaskRecord) :=
  match given idempotencyKey with
  | some key => if cr.hasDb then findExisting tenantId key else pure none
  | none => pure none

def executeAfterMs (kw : TaskKwargs) : Py ℚ :=
  match kw.delaySeconds with
  | some delay =>
    if 0 < delay then do
      let t ← time
      pure (toMs t + delay * 1000)
    else
      pure 0
  | none => pure 0

def mysqlWrite (kw : TaskKwargs) (taskId tenantId : String) : Py Unit :=
  session
    (match TaskPriority.ofValue kw.priorityText with
    | none => .raise (.valueError ("'" ++ kw.priorityText ++ "' is not a valid TaskPriority"))
    | some priority => commit [.insertTask (kw.taskInsert taskId tenantId priority)])

def redisWrite (taskId : String) (doc : TaskDoc) : Py Unit :=
  perform (.keys [(taskKey taskId, .set (.task doc) (some 86400))])

def store (cr : TaskCreator) (u : CreateInputs) (kw : TaskKwargs) (taskId tenantId : String)
    (doc : TaskDoc) : Py Unit :=
  if cr.hasDb ∧ kw.persistToDb.getD true then
    (cr.coordinator.writeAtomic u.txUuid taskId "create_task" (mysqlWrite kw taskId tenantId)
      (redisWrite taskId doc) [("tenant_id", tenantId), ("capability", kw.capabilityName)]).void
  else
    exceptException (redisWrite taskId doc) fun _ => pure ()

def recordRun (u : CreateInputs) (kw : TaskKwargs) (taskId tenantId : String) : Py Unit := do
  let runKey ← RunTrackingService.createTaskRun u.runUuid taskId (kw.attempt.getD 0) "created"
  match given kw.dagId with
  | some dagId => (RunTrackingService.createDagRun u.dagRunUuid dagId tenantId "created").void
  | none => pure ()
  TaskTimelineService.emit taskId (some runKey) "task_created"
    [("tenant_id", tenantId), ("capability", kw.capabilityName)]

def enqueueStored (cr : TaskCreator) (u : CreateInputs) (kw : TaskKwargs) (taskId tenantId : String)
    (after : ℚ) : Py CreateResult := do
  let result ← cr.queueManager.enqueue kw.capabilityName taskId kw.priorityNumber after
  if cr.hasDb then
    recordRun u kw taskId tenantId
  pure ⟨taskId, result.accepted, result.queuePosition, result.pendingCount, false⟩

def createNew (cr : TaskCreator) (u : CreateInputs) (tenantId taskId : String) (kw : TaskKwargs) :
    Py CreateResult := do
  let after ← executeAfterMs kw
  let t ← time
  cr.store u kw taskId tenantId (kw.taskDoc taskId tenantId t)
  cr.enqueueStored u kw taskId tenantId after

def createTask (cr : TaskCreator) (u : CreateInputs) (tenantId : String)
    (idempotencyKey : Option String) (kw : TaskKwargs) : Py CreateResult :=
  logErrors
    (if kw.capabilityName = "" then
      .raise (.valueError "task_type or capability must be provided in template")
    else do
      match ← cr.lookup tenantId idempotencyKey with
      | some row => pure ⟨row.taskId, true, -1, 0, true⟩
      | none => cr.createNew u tenantId (newTaskId u idempotencyKey) kw)

def plain : TaskCreator := { hasDb := true, queueManager := {} }

end TaskCreator

def CreateInputs.ones : CreateInputs := ⟨.one, .one, .one, .one⟩

def CreateInputs.twos : CreateInputs := ⟨.two, .one, .one, .one⟩

theorem deterministicId_length (key : String) : (TaskCreator.deterministicId key).length = 22 + min 60 key.length := by
  simp only [TaskCreator.deterministicId, slice, String.length_append, String.length_ofList, List.length_take,
    String.toList_ofList, List.length_map, String.length_toList, Sha256.hexdigest_length]
  have h1 : "cron-".length = 5 := rfl
  have h2 : "-".length = 1 := rfl
  omega

/-- A generated task id fits its column exactly if it is not derived from a key of more than 42 characters. -/
theorem newTaskId_length_le_iff (u : CreateInputs) (key : Option String) :
    (TaskCreator.newTaskId u key).length ≤ 64 ↔ ∀ k, given key = some k → k.length ≤ 42 := by
  unfold TaskCreator.newTaskId
  cases hk : given key with
  | none => simp [u.taskUuid.length_eq]
  | some k =>
    simp only [Option.some.injEq, forall_eq', deterministicId_length]
    omega

theorem cron_taskId_too_long :
    (TaskCreator.newTaskId .ones (some (cronIdemKey (.str Uuid.one.text) 1800000000))).length = 74 := by
  decide +kernel

/-- The state after one task of type `gpu` was created in an empty one. -/
def World.oneTask : World :=
  ((TaskCreator.plain.createTask .ones "acme" none { taskType := some "gpu" }).runWith
    Command.apply .ok World.empty).2

end AsyncScheduler
