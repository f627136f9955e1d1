import AsyncScheduler.Platform.QueueEffects
import AsyncScheduler.Common.Transaction

/-!
# What an atomic write reports

The two write functions are arbitrary, and so is what fails while they run and while a failed Redis
write is recorded.
-/

namespace AsyncScheduler
open List

/-- One call of `write_atomic` with what it finds: the state, and the faults of its commands. -/
structure WriteCall where
  coordinator : AtomicWriteCoordinator
  txUuid : Uuid
  taskId : String
  operation : String
  mysqlWrite : Py Unit
  redisWrite : Py Unit
  payload : List (String × String)
  world : World
  faults : List Fault

abbrev PyRan := Prog.Ran Command Fault World PyErr

namespace WriteCall
variable (c : WriteCall)

def ran : PyRan TxRecord :=
  (c.coordinator.writeAtomic c.txUuid c.taskId c.operation c.mysqlWrite c.redisWrite c.payload).runOn
    Command.apply .ok c.faults c.world

/-- The MySQL write within the call; reading the clock has used up the first fault. -/
def mysql : PyRan Unit := c.mysqlWrite.runOn Command.apply .ok c.faults.tail c.world

def redis : PyRan Unit := c.redisWrite.runOn Command.apply .ok c.mysql.rest c.mysql.state

def bookkeeping : List Step := c.ran.steps.drop (1 + c.mysql.steps.length + c.redis.steps.length)

/-- The transaction is stored where the compensation service looks for it, up to the two flags. -/
def Stores (tx : TxRecord) (t : Step) : Prop :=
  t.input = .ok ∧ ∃ (saved : TxRecord) (ex : Option ℚ), t.cmd = .keys [(txKey tx.txId, .set (.tx saved) ex)] ∧
    { saved with mysqlWritten := tx.mysqlWritten, redisWritten := tx.redisWritten } = tx

def HandedOver (tx : TxRecord) (steps : List Step) : Prop := ∃ t ∈ steps, Stores tx t

/-- The call raises exactly when the MySQL write did not return, and otherwise its record tells
whether the Redis write did; a failed one has been handed over. -/
def Truthful : Prop :=
  ((∃ e, c.ran.outcome = .error e) ↔ c.mysql.outcome ≠ .ok ()) ∧
    ∀ tx, c.ran.outcome = .ok tx →
      tx.mysqlWritten = true ∧ (tx.redisWritten = true ∧ tx.status = .committed ↔ c.redis.outcome = .ok ()) ∧
      (c.redis.outcome ≠ .ok () → tx.status = .failed ∧ HandedOver tx c.bookkeeping)

end WriteCall

namespace AtomicWriteCoordinator

def compensates (co : AtomicWriteCoordinator) : Bool := co.compensation.any CompensationService.hasRedis

/-- The faults let the recording succeed: a service that can store must store, and without one the
coordinator must. -/
def Records (co : AtomicWriteCoordinator) (faults : List Fault) : Prop :=
  if co.compensates then
    (co.hasRedis = true → (faults.headD .ok).interrupt = none) ∧
      (if co.hasRedis then faults.tail else faults).headD .ok = .ok
  else
    co.hasRedis = true ∧ faults.headD .ok = .ok

end AtomicWriteCoordinator

section Recording
variable (co : AtomicWriteCoordinator) (tx : TxRecord) (faults : List Fault) (w : World)

theorem runOn_savePendingTx : (co.savePendingTx tx).runOn Command.apply .ok faults w =
      if co.hasRedis then
        let saved : Command :=
          .keys [(txKey tx.txId, .set (.tx { tx with mysqlWritten := false, redisWritten := false }) (some txPendingTtl))]
        ⟨if (faults.headD .ok).interrupt = none then .ok () else .error .cancelledError,
          saved.apply (faults.headD .ok) w, faults.tail, [⟨saved, faults.headD .ok, w⟩]⟩
      else ⟨.ok (), w, faults, []⟩ := by
  unfold AtomicWriteCoordinator.savePendingTx
  dsimp only
  split
  · rw [runOn_exceptException, runOn_perform]
    cases faults.headD .ok <;> rfl
  · rfl

theorem runOn_enqueue (htx : tx.status = .failed) (sv : CompensationService) :
    (sv.enqueue tx).runOn Command.apply .ok faults w =
      if sv.hasRedis then
        (perform (.keys [(txKey tx.txId, .set (.tx tx) (some 300))])).runOn Command.apply .ok faults w
      else ⟨.ok (), w, faults, []⟩ := by
  unfold CompensationService.enqueue CompensationService.saveTransaction
  split
  · rw [htx]
  · rfl

theorem stores_iff {saved : TxRecord} {ex : Option ℚ} {i : Fault}
    (hs : { saved with mysqlWritten := tx.mysqlWritten, redisWritten := tx.redisWritten } = tx) :
    WriteCall.Stores tx ⟨.keys [(txKey tx.txId, .set (.tx saved) ex)], i, w⟩ ↔ i = .ok :=
  ⟨fun h => h.1, fun h => ⟨h, saved, ex, rfl, hs⟩⟩

theorem handedOver_iff (htx : tx.status = .failed) :
    (((co.handOver tx).runOn Command.apply .ok faults w).outcome = .ok () ∧
      WriteCall.HandedOver tx ((co.handOver tx).runOn Command.apply .ok faults w).steps) ↔ co.Records faults := by
  have hp (ex : Option ℚ) (i : Fault) (w : World) : WriteCall.Stores tx
      ⟨.keys [(txKey tx.txId, .set (.tx { tx with mysqlWritten := false, redisWritten := false }) ex)], i, w⟩ ↔
        i = .ok := stores_iff tx w rfl
  have hq (ex : Option ℚ) (i : Fault) (w : World) : WriteCall.Stores tx
      ⟨.keys [(txKey tx.txId, .set (.tx tx) ex)], i, w⟩ ↔ i = .ok := stores_iff tx w rfl
  unfold AtomicWriteCoordinator.handOver
  rw [Prog.bind_eq, Prog.runOn_bind, runOn_savePendingTx]
  obtain ⟨hasRedis, compensation⟩ := co
  unfold AtomicWriteCoordinator.Records AtomicWriteCoordinator.compensates WriteCall.HandedOver
  cases compensation with
  | none =>
    -- only the coordinator itself can store
    cases hasRedis with
    | false => simp [Prog.runOn]
    | true => cases hi : faults.headD .ok <;> simp [Prog.runOn, Prog.Ran.after, hp, Fault.interrupt]
  | some sv =>
    cases hasRedis with
    | false =>
      simp only [Bool.false_eq_true, if_false]
      rw [runOn_enqueue tx _ _ htx, runOn_perform]
      cases hsv : sv.hasRedis <;> cases hi : faults.headD .ok <;>
        simp [-headD_eq_head?_getD, hsv, Prog.Ran.after, hq]
    | true =>
      simp only [if_true]
      cases hi : faults.headD .ok with
      | cancel applied => cases hsv : sv.hasRedis <;> simp [Fault.interrupt, hsv]
      | ok =>
        simp only [Fault.interrupt, if_true]
        rw [runOn_enqueue tx _ _ htx, runOn_perform]
        cases hsv : sv.hasRedis <;> cases hj : faults.tail.headD .ok <;>
          simp [-headD_eq_head?_getD, hsv, Prog.Ran.after, hq, hp]
      | fail applied =>
        simp only [Fault.interrupt, if_true]
        rw [runOn_enqueue tx _ _ htx, runOn_perform]
        cases hsv : sv.hasRedis <;> cases hj : faults.tail.headD .ok <;>
          simp [-headD_eq_head?_getD, hsv, Prog.Ran.after, hq, hp]

def failedWith (tx : TxRecord) (e : PyErr) : TxRecord := { tx with lastError := e.str, status := .failed }

theorem runOn_syncRedis (redisWrite : Py Unit) :
    (co.syncRedis tx redisWrite).runOn Command.apply .ok faults w =
      match redisWrite.runOn Command.apply .ok faults w with
      | ⟨.ok (), w', rest, steps⟩ => ⟨.ok { tx with redisWritten := true, status := .committed }, w', rest, steps⟩
      | ⟨.error e, w', rest, steps⟩ =>
        if e.isException then
          (((co.handOver (failedWith tx e)).bind fun _ => .ret (failedWith tx e)).runOn
            Command.apply .ok rest w').after steps
        else ⟨.error e, w', rest, steps⟩ := by
  unfold AtomicWriteCoordinator.syncRedis
  rw [runOn_exceptException, Prog.bind_eq, Prog.runOn_bind]
  rcases redisWrite.runOn Command.apply .ok faults w with ⟨e | u, w', rest, steps⟩
  · rfl
  · simp [Prog.runOn, Prog.Ran.after]

end Recording

namespace WriteCall
variable (c : WriteCall)

def written : TxRecord :=
  { txId := "tx-" ++ slice c.taskId 8 ++ "-" ++ c.txUuid.hex8, taskId := c.taskId, operation := c.operation,
    createdAt := c.world.redis.clock, payload := c.payload, mysqlWritten := true }

def clockRead : Step := ⟨.read, c.faults.headD .ok, c.world⟩

theorem ran_eq : c.ran =
      match c.mysql with
      | ⟨.ok (), w, rest, steps⟩ =>
        ((c.coordinator.syncRedis c.written c.redisWrite).runOn Command.apply .ok rest w).after (c.clockRead :: steps)
      | ⟨.error e, w, rest, steps⟩ => ⟨.error e, w, rest, c.clockRead :: steps⟩ := by
  have hc : Command.apply .read (c.faults.headD .ok) c.world = c.world := by
    rcases c.faults.headD .ok with _ | ⟨⟨⟩⟩ | ⟨⟨⟩⟩ <;> rfl
  unfold ran mysql AtomicWriteCoordinator.writeAtomic time immediately
  simp only [Prog.bind_eq, Prog.bind, Prog.runOn]
  rw [hc, Prog.runOn_bind]
  rcases c.mysqlWrite.runOn Command.apply .ok c.faults.tail c.world with ⟨e | u, w, rest, steps⟩
  · rfl
  · simp only [Prog.Ran.after_after, singleton_append]
    rfl

/-- With the MySQL write returned, the call is truthful when Redis was written, or when the failure
was caught and its recording was let through. -/
theorem truthful_of_mysql (hmy : c.mysql.outcome = .ok ()) : c.Truthful ↔ c.redis.outcome = .ok () ∨
      ∃ e, c.redis.outcome = .error e ∧ e.isException = true ∧ c.coordinator.Records c.redis.rest := by
  have hra := c.ran_eq
  have hre : c.redis = c.redisWrite.runOn Command.apply .ok c.mysql.rest c.mysql.state := rfl
  unfold Truthful bookkeeping
  rw [hra]
  rcases hm : c.mysql with ⟨outcome, w, rest, steps⟩
  rw [hm] at hmy hre
  dsimp only at hmy hre
  subst hmy
  dsimp only
  rw [runOn_syncRedis, ← hre]
  rcases hr : c.redis with ⟨e | u, w', rest', steps'⟩
  · dsimp only
    by_cases he : e.isException = true
    · rw [if_pos he]
      have hs := handedOver_iff c.coordinator (failedWith c.written e) rest' w' rfl
      rw [Prog.runOn_bind]
      rcases hh : (c.coordinator.handOver (failedWith c.written e)).runOn Command.apply .ok rest' w'
        with ⟨e' | u, w'', rest'', steps''⟩
      · -- the recording itself has raised
        rw [hh] at hs
        have hl : ¬ c.coordinator.Records rest' := by simpa using hs
        simp [Prog.Ran.after, hl]
      · rw [hh] at hs
        have hd : (c.clockRead :: (steps ++ (steps' ++ steps''))).drop (1 + steps.length + steps'.length) =
            steps'' := by
          rw [Nat.add_assoc, Nat.add_comm 1, drop_succ_cons, ← append_assoc, ← length_append, drop_left]
        simp only [Prog.Ran.after, Prog.runOn, append_nil, cons_append, hd]
        simp [he, ← hs, failedWith, written]
    · rw [if_neg he]
      simp [Prog.Ran.after, he]
  · simp [Prog.Ran.after, written]

def insertThenLose (coordinator : AtomicWriteCoordinator) (faults : List Fault) : WriteCall :=
  { coordinator, txUuid := .one, taskId := "t", operation := "create_task",
    mysqlWrite := commit [.insertTask { taskId := "t", tenantId := "acme", taskType := "gpu", status := "queued" }],
    redisWrite := .raise connectionLost, payload := [], world := .empty, faults }

end WriteCall

end AsyncScheduler
