import AsyncScheduler.Common.Loops
import AsyncScheduler.Common.Transaction
import AsyncScheduler.Platform.QueueManager

/-!
# Task reconciler

One tick of the loop: leader election, the rebuild of Redis from the database, a scan of task
documents and the three repair phases run together on the scanned batch.
-/

namespace AsyncScheduler

structure TaskReconciler where
  hasDb : Bool := true
  queueManager : Option QueueManager := none
  stuckMaxPerTick : Int := 20
  stuckMaxAge : ℚ := 300
  instanceId : String
  leaderTtl : Int := 90
  compensation : Bool := false
  deriving DecidableEq, Repr

structure RequeueInfo where
  taskId : String
  attempt : Int
  capability : String
  priorityRank : Int
  deriving DecidableEq, Repr

def twoPow (n : Int) : ℚ := if 0 ≤ n then 2 ^ n.toNat else 1 / 2 ^ (-n).toNat

namespace TaskReconciler
open QueueKeys

def tryBecomeLeader (rc : TaskReconciler) : Py Bool := do
  let ok ← await (.keys [(reconcileLeaderKey, .setNx (.text rc.instanceId) rc.leaderTtl)]) fun w =>
    .ok !w.redis.existsKey reconcileLeaderKey
  if ok then
    pure true
  else
    await (.keys [(reconcileLeaderKey, .renew (.text rc.instanceId) rc.leaderTtl)]) fun w =>
      .ok (luaRenew reconcileLeaderKey (.text rc.instanceId) rc.leaderTtl w.redis).1

def rebuildCache (row : TaskRecord) : Py Unit := do
  let existing ← query fun w => w.redis.get (taskKey row.taskId)
  if Blob.truthy existing then
    pure ()
  else
    perform (.keys [(taskKey row.taskId, .set (.task row.payload) (some 86400))])

/-- Put a queued or scheduled row back into its queue when it is in neither set. -/
def rebuildIndex (row : TaskRecord) : Py Unit :=
  if row.taskType ≠ "" ∧ (row.status = .queued ∨ row.status = .scheduled) then do
    let inPending ← query fun w => w.redis.zscore (pending row.taskType) row.taskId
    let inRunning ← query fun w => w.redis.zscore (running row.taskType) row.taskId
    if inPending = none ∧ inRunning = none then
      let t ← time
      perform (.queue (.restore row.taskType row.taskId t))
    else
      pure ()
  else
    pure ()

def rebuildRow (row : TaskRecord) : Py Unit :=
  if row.taskId = "" then
    pure ()
  else do
    rebuildCache row
    rebuildIndex row

def rebuildRedisFromMysql (rc : TaskReconciler) : Py Unit :=
  if rc.hasDb then
    exceptException
      (session do
        let rows ← query fun w => w.db.tasks.rows
        Prog.forEach rebuildRow rows)
      fun _ => pure ()
  else
    pure ()

def scanTaskBatch (scanned : List String) : Py (List TaskDoc) := do
  let keys ← exceptException (query fun _ => scanned) fun _ => pure []
  if keys = [] then
    pure []
  else
    query fun w => keys.filterMap fun id => (w.redis.get (taskKey id)).bind Blob.taskDoc

def isTerminal (t : TaskDoc) : Bool := t.statusText ∈ ["completed", "failed", "cancelled"]

def jsonTruthy (v : Option String) : Bool :=
  v.getD "null" ∉ ["null", "false", "0", "\"\"", "[]", "\x7b\x7d"]

def phase1Record (t : TaskDoc) : TaskInsert where
  taskId := t.idText
  tenantId := t.tenantId.getD ""
  status := t.status.getD "unknown"
  outputData := if jsonTruthy t.output then t.output else none

def phase1Tx (t : TaskDoc) (now : ℚ) : TxRecord where
  txId := "reconciler-" ++ slice (t.taskId.getD "unknown") 8
  taskId := t.idText
  operation := "create_task"
  status := .failed
  mysqlWritten := true
  lastError := "detected by reconciler phase1"
  createdAt := now

def phase1DoubleWrite (rc : TaskReconciler) (batch : List TaskDoc) : Py Unit :=
  let terminal := batch.filter isTerminal
  let taskIds := (terminal.map TaskDoc.idText).filter (· ≠ "")
  if rc.hasDb ∧ terminal ≠ [] ∧ taskIds ≠ [] then
    exceptException
      (session do
        let persisted ← query fun w =>
          (w.db.tasks.rows.map TaskRecord.taskId).filter (· ∈ taskIds)
        -- `t["task_id"]` fails on a document without the field
        if terminal.any (·.taskId.isNone) then
          .raise (.keyError "task_id")
        else
          let missing := terminal.filter fun t => t.idText ∉ persisted
          if missing = [] then
            pure ()
          else
            commit (missing.map fun t => .insertTask (phase1Record t))
            if rc.compensation then
              Prog.forEach (fun t => do
                let now ← time
                exceptException (CompensationService.enqueue {} (phase1Tx t now)) fun _ => pure ()) missing
            else
              pure ())
      fun _ => pure ()
  else
    pure ()

def isStuckCandidate (t : TaskDoc) : Bool := t.statusText ∈ ["running", "queued"]

def tooYoung (rc : TaskReconciler) (now : ℚ) (t : TaskDoc) : Bool :=
  let created := t.createdAtTs.getD 0
  created ≠ 0 ∧ now - created < rc.stuckMaxAge

def requeueInfo (t : TaskDoc) : RequeueInfo where
  taskId := t.idText
  attempt := t.attempt.getD 0
  capability := t.capability.getD (t.taskType.getD "")
  priorityRank := t.priorityRank.getD 3

def selectStuck (rc : TaskReconciler) (now : ℚ) :
    List (TaskDoc × Bool) → Nat → List RequeueInfo → List String → Py (List RequeueInfo × List String)
  | [], _, requeue, fail => pure (requeue, fail)
  | (t, lockExists) :: rest, stuckCount, requeue, fail =>
    if rc.stuckMaxPerTick ≤ stuckCount then
      pure (requeue, fail)
    else if t.idText = "" ∨ lockExists ∨ rc.tooYoung now t then
      selectStuck rc now rest stuckCount requeue fail
    else do
      let fresh ← await (.keys [(requeueDedupKey t.idText, .setNx (.text "1") 300)]) fun w =>
        .ok !w.redis.existsKey (requeueDedupKey t.idText)
      if !fresh then
        selectStuck rc now rest stuckCount requeue fail
      else if rc.queueManager.isSome ∧ t.attempt.getD 0 < t.maxRetries.getD 0 then
        selectStuck rc now rest (stuckCount + 1) (requeue ++ [requeueInfo t]) fail
      else
        selectStuck rc now rest (stuckCount + 1) requeue (fail ++ [t.idText])

def bumpAttempts (rc : TaskReconciler) (requeue : List RequeueInfo) : Py Unit :=
  if rc.hasDb ∧ requeue ≠ [] then
    exceptException
      (session do
        query fun _ => ()
        commit [.bumpAttempts (requeue.map RequeueInfo.taskId)])
      fun _ => pure ()
  else
    pure ()

def requeueOne (q : QueueManager) (nowMs : Int) (info : RequeueInfo) : Py Unit :=
  if info.capability = "" then
    pure ()
  else
    (q.enqueue info.capability info.taskId info.priorityRank
      (nowMs + min 600000 (10000 * twoPow info.attempt))).void

def markFailed (t : TaskDoc) : TaskDoc :=
  { t with
    status := some TaskStatus.failed.value
    error := some "reconciler: stuck task, lock expired" }

def failTasks (fail : List String) : Py Unit :=
  if fail = [] then
    pure ()
  else do
    let raws ← query fun w => fail.map fun id => (id, (w.redis.get (taskKey id)).bind Blob.taskDoc)
    perform (.keys (raws.filterMap fun (id, raw) =>
      raw.map fun t => (taskKey id, .set (.task (markFailed t)) none)))

def phase2StuckRecovery (rc : TaskReconciler) (batch : List TaskDoc) : Py Unit :=
  let candidates := batch.filter isStuckCandidate
  if candidates = [] then
    pure ()
  else do
    let now ← time
    let locked ← query fun w => candidates.map fun t => (t, w.redis.existsKey (lockKey t.idText))
    let (requeue, fail) ← rc.selectStuck now locked 0 [] []
    rc.bumpAttempts requeue
    let t ← time
    match rc.queueManager with
    | some q => Prog.forEach (requeueOne q (toMs t)) requeue
    | none => pure ()
    failTasks fail

def wantsCallback (t : TaskDoc) : Bool :=
  t.statusText ∈ ["completed", "failed"] ∧ t.callbackUrl.getD "" ≠ ""

def compensateCallback (t : TaskDoc) : Py Unit := do
  let queued ← query fun w => w.redis.zscore QueueKeys.callbackRetry t.idText
  if queued.isSome then
    pure ()
  else
    let now ← time
    let event : RetryEvent := ⟨t.idText, t.callbackUrl.getD "", t.status, t.output, 1⟩
    perform (.callbackRetry t.idText (now + 10)
      [(retryPayloadKey t.idText, .set (.retry event) (some 3600))])

def phase3LostCallback (batch : List TaskDoc) : Py Unit :=
  let terminal := batch.filter wantsCallback
  if terminal = [] then
    pure ()
  else do
    let done ← query fun w => terminal.map fun t => (t, w.redis.existsKey (callbackDone t.idText))
    Prog.forEach compensateCallback ((done.filter (!·.2)).map Prod.fst)

def tick (rc : TaskReconciler) (scanned : List String) (schedule : List Nat) : Py Unit := do
  if ← rc.tryBecomeLeader then
    rc.rebuildRedisFromMysql
    let batch ← scanTaskBatch scanned
    if batch = [] then
      pure ()
    else
      (Prog.gather Fault.interrupt schedule
        [rc.phase1DoubleWrite batch, rc.phase2StuckRecovery batch, phase3LostCallback batch]).void
  else
    pure ()

/-- `_loop`, under its decorator, with what a SCAN returns and the order of the phases in each tick. -/
def loop (rc : TaskReconciler) (ticks : List (List String × List Nat)) :
    Prog (LoopCommand Command) Fault World PyErr Unit :=
  (suppressErrors (whileRunning (ticks.map fun t => rc.tick t.1 t.2))).void

def plain : TaskReconciler := { instanceId := "i", queueManager := some {} }

end TaskReconciler

end AsyncScheduler
