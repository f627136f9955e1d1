import AsyncScheduler.Platform.World

/-!
# Atomic writes

The database is written first and Redis second. When Redis fails the transaction is recorded for the
compensation service.
-/

namespace AsyncScheduler

structure Uuid where
  text : String
  length_eq : text.length = 36
  deriving DecidableEq, Repr

def Uuid.one : Uuid := ⟨"00000000-0000-0000-0000-000000000001", by decide⟩

def Uuid.two : Uuid := ⟨"00000000-0000-0000-0000-000000000002", by decide⟩

/-- `uuid.uuid4().hex[:8]`. -/
def Uuid.hex8 (u : Uuid) : String := slice u.text 8

def txPendingTtl : ℚ := 300

structure CompensationService where
  hasRedis : Bool := true
  batchSize : Nat := 100
  maxRetries : Int := 3
  deriving DecidableEq, Repr

namespace CompensationService

def saveTransaction (sv : CompensationService) (tx : TxRecord) : Py Unit :=
  if sv.hasRedis then
    match tx.status with
    | .committed | .expired => perform (.keys [(txKey tx.txId, .del)])
    | _ => perform (.keys [(txKey tx.txId, .set (.tx tx) (some 300))])
  else
    pure ()

def enqueue (sv : CompensationService) (tx : TxRecord) : Py Unit := sv.saveTransaction tx

end CompensationService

structure AtomicWriteCoordinator where
  hasRedis : Bool := true
  compensation : Option CompensationService := none
  deriving DecidableEq, Repr

namespace AtomicWriteCoordinator

/-- The saved document has no `mysql_written` and `redis_written`; they read back as false. -/
def savePendingTx (co : AtomicWriteCoordinator) (tx : TxRecord) : Py Unit :=
  let saved : TxRecord := { tx with mysqlWritten := false, redisWritten := false }
  if co.hasRedis then
    exceptException (perform (.keys [(txKey tx.txId, .set (.tx saved) (some txPendingTtl))]))
      fun _ => pure ()
  else
    pure ()

def handOver (co : AtomicWriteCoordinator) (failed : TxRecord) : Py Unit := do
  co.savePendingTx failed
  match co.compensation with
  | some sv => sv.enqueue failed
  | none => pure ()

/-- Phase 2: write Redis; a failure is recorded and the transaction returned as failed. -/
def syncRedis (co : AtomicWriteCoordinator) (tx : TxRecord) (redisWrite : Py Unit) : Py TxRecord :=
  exceptException
    (do
      redisWrite
      pure { tx with redisWritten := true, status := .committed })
    fun redisError => do
      let failed := { tx with lastError := redisError.str, status := .failed }
      co.handOver failed
      pure failed

def writeAtomic (co : AtomicWriteCoordinator) (txUuid : Uuid) (taskId operation : String)
    (mysqlWrite redisWrite : Py Unit) (payload : List (String × String)) : Py TxRecord := do
  let t ← time
  let tx : TxRecord :=
    { txId := "tx-" ++ slice taskId 8 ++ "-" ++ txUuid.hex8, taskId, operation, createdAt := t, payload }
  mysqlWrite
  co.syncRedis { tx with mysqlWritten := true } redisWrite

end AtomicWriteCoordinator

section Footprint
variable {I : World → Prop} {C : Command → Prop} {tx : TxRecord}

theorem CompensationService.issues_saveTransaction (sv : CompensationService)
    (hdel : C (.keys [(txKey tx.txId, .del)])) (hset : C (.keys [(txKey tx.txId, .set (.tx tx) (some 300))])) :
    Issues I C (fun _ => True) (sv.saveTransaction tx) := by
  unfold saveTransaction
  split
  · split
    · exact issues_perform hdel
    · exact issues_perform hdel
    · exact issues_perform hset
  · trivial

theorem AtomicWriteCoordinator.issues_handOver (co : AtomicWriteCoordinator)
    (hdel : C (.keys [(txKey tx.txId, .del)])) (hset : ∀ saved ex, C (.keys [(txKey tx.txId, .set (.tx saved) ex)])) :
    Issues I C (fun _ => True) (co.handOver tx) := by
  refine Issues.bind (Q := fun _ => True) ?_ fun _ _ => ?_
  · unfold savePendingTx
    dsimp only
    split
    · exact issues_exceptException (issues_perform (hset _ _)) fun _ => trivial
    · trivial
  · split
    · exact CompensationService.issues_saveTransaction _ hdel (hset _ _)
    · trivial

end Footprint

end AsyncScheduler
