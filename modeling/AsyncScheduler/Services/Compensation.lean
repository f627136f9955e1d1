import AsyncScheduler.Common.Loops
import AsyncScheduler.Common.Transaction

/-!
# Compensation service

Recorded transactions are tried again until they are done or have been tried too often.
-/

namespace AsyncScheduler

namespace CompensationService

def taskData (row : TaskRecord) : TaskDoc where
  taskId := row.taskId
  tenantId := row.tenantId
  status := row.status.value
  createdAtTs := row.createdAt
  capability := row.taskType
  priorityRank := some 3

def active (now : ℚ) (row : TaskRecord) : Bool :=
  row.status ∈ [.queued, .running, .scheduled] ∧ now - 86400 ≤ row.updatedAt

def selectActive (batchSize : Nat) (order : List String) (now : ℚ) (w : World) : List TaskRecord :=
  (inOrder (·.taskId) order (w.db.tasks.rows.filter (active now))).take batchSize

def scanMissingRedisTasks (batchSize : Nat) (order : List String) : Py (List TaskRecord) :=
  session do
    let now ← time
    let tasks ← query (selectActive batchSize order now)
    if tasks = [] then
      pure []
    else
      query fun w => tasks.filter fun row => !w.redis.existsKey (taskKey row.taskId)

def repairMissingTask (row : TaskRecord) : Py Unit :=
  exceptException (perform (.keys [(taskKey row.taskId, .set (.task (taskData row)) (some 86400))]))
    fun _ => pure ()

/-- The second half of `_scan_and_repair`. -/
def repairMissing (batchSize : Nat) (order : List String) : Py Unit := do
  let missing ← scanMissingRedisTasks batchSize order
  Prog.forEach repairMissingTask missing

/-- The records under the given keys; a value that cannot be read or is no record is skipped. -/
def readTransactions : List String → Py (List TxRecord)
  | [] => pure []
  | id :: ids => do
    let tx ← exceptException (query fun w => (w.redis.get (txKey id)).bind Blob.txRecord) fun _ => pure none
    let txs ← readTransactions ids
    pure (tx.toList ++ txs)

def isPending (tx : TxRecord) : Bool := tx.status = .pendingRedis ∨ tx.status = .failed

def scanPendingTransactions (sv : CompensationService) (scanned : List String) : Py (List TxRecord) :=
  if sv.hasRedis then
    exceptException
      (do
        let ids ← query fun _ => scanned
        let txs ← readTransactions ids
        pure (txs.filter isPending))
      fun _ => pure []
  else
    pure []

abbrev TxPy := Prog Command Fault World (PyErr × TxRecord)

/-- What is raised here leaves the transaction as `tx`. -/
def holding {α : Type} (tx : TxRecord) (p : Py α) : TxPy α := p.recover fun e => .raise (e, tx)

/-- `session` around a body that changes the transaction. -/
def txSession (body : TxPy TxRecord) : TxPy TxRecord :=
  let committed : TxPy TxRecord := do
    let tx ← body
    holding tx (query fun _ => ())
    pure tx
  (committed.handle fun raised =>
    if raised.1.isException then do
      holding raised.2 (query fun _ => ())
      .raise raised
    else
      .raise raised).ensure fun outcome =>
    match outcome with
    | .ok tx => holding tx (query fun _ => ())
    | .error raised => holding raised.2 (query fun _ => ())

def markExpired (sv : CompensationService) (tx : TxRecord) : TxPy TxRecord := do
  let expired := { tx with status := .expired }
  holding expired (sv.saveTransaction expired)
  pure expired

def markCommitted (sv : CompensationService) (tx : TxRecord) : TxPy TxRecord := do
  let committed := { tx with status := .committed, redisWritten := true }
  holding committed (sv.saveTransaction committed)
  pure committed

def retryCreateTask (sv : CompensationService) (tx : TxRecord) : TxPy TxRecord :=
  txSession do
    let task ← holding tx (query fun w => w.db.tasks.find tx.taskId)
    match task with
    | none => sv.markExpired tx
    | some task => do
      holding tx (perform (.keys [(taskKey tx.taskId, .set (.task (taskData task)) (some 86400))]))
      sv.markCommitted tx

/-- `task_data["status"] = status` on the decoded value; only a document takes an item. -/
def withStatus (status : String) : Blob → Except PyErr TaskDoc
  | .task doc => .ok { doc with status }
  | .num _ => .error (.typeError "'int' object does not support item assignment")
  | _ => .error (.valueError "Expecting value: line 1 column 1 (char 0)")

theorem withStatus_error {status : String} {b : Blob} {e : PyErr} (h : withStatus status b = .error e) :
    e.isException = true ∧ ∀ doc, b ≠ .task doc := by
  unfold withStatus at h
  split at h
  · cases h
  · cases h
    exact ⟨rfl, fun _ hd => by cases hd⟩
  · next hno _ =>
    cases h
    exact ⟨rfl, hno⟩

def retryUpdateStatus (sv : CompensationService) (tx : TxRecord) : TxPy TxRecord :=
  txSession do
    let task ← holding tx (query fun w => w.db.tasks.find tx.taskId)
    match task with
    | none => sv.markExpired tx
    | some task => do
      let data ← holding tx (query fun w => w.redis.get (taskKey tx.taskId))
      if Blob.truthy data then
        match withStatus task.status.value (data.getD (.text "")) with
        | .ok doc => holding tx (perform (.keys [(taskKey tx.taskId, .set (.task doc) (some 86400))]))
        | .error e => .raise (e, tx)
      else
        pure ()
      sv.markCommitted tx

def retryOperation (sv : CompensationService) (tx : TxRecord) : TxPy TxRecord :=
  if tx.operation = "create_task" then sv.retryCreateTask tx
  else if tx.operation = "update_status" then sv.retryUpdateStatus tx
  else sv.markExpired tx

def repairTransaction (sv : CompensationService) (tx : TxRecord) : Py Unit :=
  if sv.maxRetries ≤ tx.retryCount then
    (sv.markExpired tx).void.recover fun raised => .raise raised.1
  else
    (sv.retryOperation tx).void.recover fun raised =>
      if raised.1.isException then
        let left := raised.2
        sv.saveTransaction { left with retryCount := left.retryCount + 1, lastError := raised.1.str }
      else
        .raise raised.1

/-- `_scan_and_repair` once its transactions are known. -/
def repairAll (sv : CompensationService) (txs : List TxRecord) (order : List String) : Py Unit := do
  Prog.forEach sv.repairTransaction txs
  repairMissing sv.batchSize order

def scanAndRepair (sv : CompensationService) (scanned order : List String) : Py Unit := do
  let pendingTxs ← sv.scanPendingTransactions scanned
  sv.repairAll pendingTxs order

/-- `_run_loop`: the handlers are inside the loop. Each tick has the keys of its scan and the order of its rows. -/
def runLoop (sv : CompensationService) :
    List (List String × List String) → Prog (LoopCommand Command) Fault World PyErr Unit
  | [] => .ret ()
  | (scanned, order) :: ticks => do
    atOnce .test fun _ => ()
    let repaired : Prog (LoopCommand Command) Fault World PyErr Bool := do
      (sv.scanAndRepair scanned order).calls
      pausing .pause
      pure true
    let goOn ← repaired.handle fun e =>
      if e.isException then do
        pausing .pause
        pure true
      else
        -- a cancellation breaks out of the loop
        pure false
    if goOn then sv.runLoop ticks else pure ()

def missing (batchSize : Nat) (order : List String) (w : World) : List TaskRecord :=
  (selectActive batchSize order w.redis.clock w).filter fun row => !w.redis.existsKey (taskKey row.taskId)

theorem runWith_scanMissingRedisTasks (batchSize : Nat) (order : List String) (w : World) :
    (scanMissingRedisTasks batchSize order).runWith Command.apply .ok w = (.ok (missing batchSize order w), w) := by
  unfold scanMissingRedisTasks missing
  rw [runWith_session, Prog.bind_eq, Prog.runWith_bind_ok (runWith_time w), Prog.bind_eq,
    Prog.runWith_bind_ok (runWith_query w _)]
  split
  · rename_i hn
    rw [hn]
    rfl
  · exact runWith_query w _

def repaired (r : Store) (row : TaskRecord) : Store :=
  r.set (taskKey row.taskId) (.task (taskData row)) (some 86400)

theorem runWith_repairMissingTask (row : TaskRecord) (w : World) :
    (repairMissingTask row).runWith Command.apply .ok w = (.ok (), w.onRedis (repaired · row)) := by
  unfold repairMissingTask
  rw [runWith_exceptException, runWith_perform]
  rfl

theorem clock_foldl_repaired (rows : List TaskRecord) (r : Store) : (rows.foldl repaired r).clock = r.clock := by
  induction rows generalizing r with
  | nil => rfl
  | cons row rows ih => exact ih _

/-- Repairing writes the document of each of the rows and no other. -/
theorem strings_foldl_repaired (x : String) {rows : List TaskRecord} (hn : (rows.map TaskRecord.taskId).Nodup) (r : Store) :
    (rows.foldl repaired r).strings (taskKey x) = ((rows.find? (·.taskId = x)).map fun row =>
      (Blob.task (taskData row), some (r.clock + 86400))).or (r.strings (taskKey x)) := by
  induction rows generalizing r with
  | nil => rfl
  | cons row rows ih =>
    rw [List.map_cons, List.nodup_cons] at hn
    rw [List.foldl_cons, ih hn.2, repaired, Redis.strings_set]
    by_cases hx : row.taskId = x
    · have hf : rows.find? (·.taskId = x) = none := by
        simpa [← hx] using hn.1
      simp [hx, hf]
    · have hk : taskKey x ≠ taskKey row.taskId := by simpa using Ne.symm hx
      simp [hx, hk, Redis.set]

/-- In whatever order the rows come, a pass of the repair writes the documents of the missing rows of its batch and no
other. If all active rows fit into a batch, a second pass changes nothing. -/
theorem repairMissing_settles (batchSize : Nat) (order : List String) (w : World) :
    let w' := ((repairMissing batchSize order).runWith Command.apply .ok w).2
    (∀ x, w'.redis.strings (taskKey x) = (((missing batchSize order w).find? (·.taskId = x)).map fun row =>
        (Blob.task (taskData row), some (w.redis.clock + 86400))).or (w.redis.strings (taskKey x))) ∧
      ((w.db.tasks.rows.filter (active w.redis.clock)).length ≤ batchSize →
        ∀ order', (repairMissing batchSize order').runWith Command.apply .ok w' = (.ok (), w')) := by
  have hrun (order : List String) (w : World) : (repairMissing batchSize order).runWith Command.apply .ok w =
      (.ok (), w.onRedis ((missing batchSize order w).foldl repaired)) := by
    unfold repairMissing
    rw [Prog.bind_eq, Prog.runWith_bind_ok (runWith_scanMissingRedisTasks batchSize order w),
      Prog.runWith_forEach runWith_repairMissingTask, World.foldl_onRedis]
  have hd : ((w.db.tasks.rows.filter (active w.redis.clock)).map TaskRecord.taskId).Nodup :=
    w.db.tasks.distinct.sublist (List.filter_sublist.map _)
  have hn : ((missing batchSize order w).map TaskRecord.taskId).Nodup :=
    (nodup_inOrder hd).sublist ((List.filter_sublist.trans (List.take_sublist _ _)).map _)
  intro w'
  have hw : w' = w.onRedis ((missing batchSize order w).foldl repaired) := congrArg Prod.snd (hrun order w)
  have hx (x : String) := strings_foldl_repaired x hn w.redis
  refine ⟨fun x => by rw [hw]; exact hx x, fun hfit order' => ?_⟩
  have hm : missing batchSize order' w' = [] := by
    rw [hw, missing, List.filter_eq_nil_iff]
    intro row hr
    -- neither the rows nor the clock have changed, so the row was in the first batch too
    simp only [World.onRedis, clock_foldl_repaired, selectActive] at hr
    have hb : row ∈ selectActive batchSize order w.redis.clock w := by
      rw [selectActive, List.take_of_length_le ((length_inOrder_le hd).trans hfit)]
      exact mem_inOrder hd (mem_of_mem_inOrder (List.mem_of_mem_take hr))
    have hs : (∀ y ∈ missing batchSize order w, y.taskId ≠ row.taskId) →
        w.redis.strings (taskKey row.taskId) ≠ none := by
      intro hno he
      exact hno row (List.mem_filter.mpr ⟨hb, by simp [Redis.existsKey, he]⟩) rfl
    simpa [World.onRedis, Redis.existsKey, hx] using hs
  rw [hrun order' w', hm]
  rfl

end CompensationService

end AsyncScheduler
