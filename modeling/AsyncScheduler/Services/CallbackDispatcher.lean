import AsyncScheduler.Common.Loops
import AsyncScheduler.Platform.RowEffects

/-!
# Callback dispatcher

The rows of the outbox are sent one after the other within one session, and what became of each of
them is committed at the end.
-/

namespace AsyncScheduler
open List

def backoffSeconds : List Int := [10, 30, 60, 300, 900, 1800, 3600]

def nextAttemptDelay (attemptCount : Int) : Int :=
  let idx := min (attemptCount - 1) (backoffSeconds.length - 1)
  backoffSeconds.getD (max 0 idx).toNat 0

/-- `started` is whether there is an HTTP client. -/
structure CallbackDispatchService where
  hasDb : Bool := true
  started : Bool := true
  maxAttempts : Int := 8
  deriving DecidableEq, Repr

def CallbackOutboxRecord.isDue (now : ℚ) (row : CallbackOutboxRecord) : Bool :=
  row.deliveryStatus = .pending ∧ ∀ t ∈ row.nextAttemptAt, t ≤ now

namespace CallbackDispatchService

def selectDue (order : List Nat) (now : ℚ) (w : World) : List CallbackOutboxRecord :=
  (inOrder (·.id) order (w.db.callbackOutbox.filter (·.isDue now))).take 50

def delivered (row : CallbackOutboxRecord) : OutboxUpdate :=
  { attemptCount := row.attemptCount + 1, deliveryStatus := some .delivered }

def failed (sv : CallbackDispatchService) (now : ℚ) (row : CallbackOutboxRecord) (e : PyErr) : OutboxUpdate :=
  let attemptCount := row.attemptCount + 1
  if sv.maxAttempts ≤ attemptCount then
    { attemptCount, lastError := some e.str, deliveryStatus := some .deadLetter }
  else
    { attemptCount, lastError := some e.str, nextAttemptAt := some (now + nextAttemptDelay attemptCount) }

def deliver (sv : CallbackDispatchService) (now : ℚ) (row : CallbackOutboxRecord) : Py DbWrite :=
  exceptException
    (do
      perform (.post ⟨row.callbackUrl, row.payload, row.taskId, none⟩)
      pure (.updateOutbox row.id (delivered row)))
    fun e => pure (.updateOutbox row.id (sv.failed now row e))

def deliverAll (sv : CallbackDispatchService) (now : ℚ) : List CallbackOutboxRecord → Py (List DbWrite)
  | [] => pure []
  | row :: rows => do
    let write ← sv.deliver now row
    let writes ← sv.deliverAll now rows
    pure (write :: writes)

def processOnce (sv : CallbackDispatchService) (order : List Nat) : Py Nat :=
  if sv.hasDb && sv.started then do
    let now ← time
    session do
      let rows ← query (selectDue order now)
      let writes ← sv.deliverAll now rows
      commit writes
      pure rows.length
  else
    pure 0

/-- `_loop`, with the order of the rows in each pass. -/
def loop (sv : CallbackDispatchService) (orders : List (List Nat)) : Prog (LoopCommand Command) Fault World PyErr Unit :=
  whileRunning (orders.map fun order => (sv.processOnce order).void)

theorem mem_of_mem_selectDue {order : List Nat} {now : ℚ} {w : World} {row : CallbackOutboxRecord}
    (h : row ∈ selectDue order now w) : row ∈ w.db.callbackOutbox ∧ row.isDue now = true :=
  mem_filter.mp (mem_of_mem_inOrder (mem_of_mem_take h))

section
variable {I : World → Prop} {C : Command → Prop} (sv : CallbackDispatchService)

def OnlyUpdates (writes : List DbWrite) : Prop := ∀ write ∈ writes, ∃ id u, write = .updateOutbox id u

section
variable (now : ℚ) {rows : List CallbackOutboxRecord}
  (hp : ∀ row ∈ rows, C (.post ⟨row.callbackUrl, row.payload, row.taskId, none⟩))
include hp

theorem issues_deliverAll :
    Issues I C OnlyUpdates (sv.deliverAll now rows) := by
  induction rows with
  | nil => exact fun write hw => absurd hw not_mem_nil
  | cons row rows ih =>
    refine Issues.bind (Q := fun write => ∃ id u, write = .updateOutbox id u) ?_ fun write hw => ?_
    · refine issues_exceptException ((issues_perform (hp row mem_cons_self)).bind fun _ _ => ?_) fun e => ?_
      · exact ⟨row.id, _, rfl⟩
      · exact ⟨row.id, _, rfl⟩
    · refine (ih fun row' hr' => hp row' (mem_cons_of_mem _ hr')).bind fun writes hwr => ?_
      exact forall_mem_cons.mpr ⟨hw, hwr⟩

theorem issues_deliverRows (hc : ∀ writes, OnlyUpdates writes → C (.commit writes)) :
    Issues I C (fun _ => True) (do
      let writes ← sv.deliverAll now rows
      commit writes
      pure rows.length) := by
  refine (sv.issues_deliverAll now hp).bind fun writes hw => ?_
  exact (issues_await (Q := fun _ => True) (hc writes hw) fun _ _ _ _ => trivial).bind fun _ _ => trivial

end

theorem issues_processOnce (order : List Nat) (hr : C .read)
    (hp : sv.hasDb = true → sv.started = true → ∀ w, I w → ∀ row ∈ w.db.callbackOutbox,
      C (.post ⟨row.callbackUrl, row.payload, row.taskId, none⟩))
    (hc : ∀ writes, OnlyUpdates writes → C (.commit writes)) :
    Issues I C (fun _ => True) (sv.processOnce order) := by
  unfold processOnce
  split
  · rename_i ha
    obtain ⟨hdb, hs⟩ := Bool.and_eq_true_iff.mp ha
    refine (issues_immediately (Q := fun _ => True) hr fun _ _ => trivial).bind fun now _ => ?_
    refine issues_session hr ?_
    refine (issues_query (Q := fun rows => ∃ w, I w ∧ selectDue order now w = rows) hr
      fun w hw => ⟨w, hw, rfl⟩).bind ?_
    rintro rows ⟨w, hw, rfl⟩
    exact sv.issues_deliverRows now (fun row hro => hp hdb hs w hw row (mem_of_mem_selectDue hro).1) hc
  · trivial

end

end CallbackDispatchService

end AsyncScheduler
