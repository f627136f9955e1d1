import AsyncScheduler.Platform.QueueEffects
import AsyncScheduler.Platform.RowEffects
import AsyncScheduler.Services.Compensation
import AsyncScheduler.Shared.Rely

/-!
# Compensation ends

The others leave the recorded transactions alone, and a record can expire at any time. In each call
of the service every record is attempted: one whose tries are spent is removed, one that is repaired
is removed with the document of its task written, and one whose repair fails is counted once.
-/

namespace AsyncScheduler
open List

def World.tx (w : World) (id : String) : Option Blob := w.redis.get (txKey id)

namespace CompensationService
variable {w w' w₁ w₂ : World} {id : String} {sv : CompensationService}

def Spares (w w' : World) : Prop := ∀ id, w'.tx id = w.tx id ∨ w'.tx id = none

def SparesOthers (id : String) (w w' : World) : Prop := ∀ id' ≠ id, w'.tx id' = w.tx id' ∨ w'.tx id' = none

def NoFault (_ : Command) (i : Fault) : Prop := i = .ok

def TxFault (c : Command) (i : Fault) : Prop :=
  i.interrupt = none ∧ ∀ id op, c = .keys [(txKey id, op)] → i = .ok

/-- Every record can be read, lies under its own key and is to be tried again. -/
def AllPending (w : World) : Prop :=
  ∀ id b, w.tx id = some b → ∃ tx, b = .tx tx ∧ tx.txId = id ∧ isPending tx = true

/-- One call of `_scan_and_repair`, cut where its scan ends: the scan lists each key once, and
then everything but the transaction keys can fail. -/
structure Call (sv : CompensationService) (w w' : World) where
  scanned : List String
  nodup : scanned.Nodup
  lists : ∀ id, w.tx id ≠ none → id ∈ scanned
  txs : List TxRecord
  afterScan : World
  outcome : Except PyErr Unit
  scanSteps : List Step
  scan : Runs Command.apply NoFault Spares (sv.scanPendingTransactions scanned) w scanSteps (.ok txs) afterScan
  order : List String
  steps : List Step
  repair : Runs Command.apply TxFault Spares (sv.repairAll txs order) afterScan steps outcome w'

/-- Calls one after the other, with any time between them. -/
inductive Calls (sv : CompensationService) : Nat → World → World → Prop
  | none {w w' : World} : Spares w w' → Calls sv 0 w w'
  | call {n : Nat} {w w₁ w₂ w' : World} : Calls sv n w w₁ → Call sv w₁ w₂ → Spares w₂ w' → Calls sv (n + 1) w w'

def Tried (sv : CompensationService) (w w' : World) (id : String) : Prop :=
  w'.tx id = none ∨ ∃ tx e, w.tx id = some (.tx tx) ∧ (tx.retryCount : Int) < sv.maxRetries ∧
    w'.tx id = some (.tx { tx with retryCount := tx.retryCount + 1, lastError := e })

/-- What a retry is for is done: the task has no row, or its document has been written with the status
of the row; an update has nothing to do when there is no document. -/
def Settled (tx : TxRecord) (steps : List Step) : Prop :=
  (tx.operation ≠ "create_task" ∧ tx.operation ≠ "update_status") ∨
  ∃ t ∈ steps, t.cmd = .read ∧ t.input = .ok ∧ ∀ row, t.pre.db.tasks.find tx.taskId = some row →
    (∃ u ∈ steps, ∃ doc : TaskDoc, u.input = .ok ∧ doc.status = row.status.value ∧
      u.cmd = .keys [(taskKey tx.taskId, .set (.task doc) (some 86400))]) ∨
    tx.operation = "update_status" ∧ ∃ u ∈ steps, u.cmd = .read ∧ u.input = .ok ∧
      Blob.truthy (u.pre.redis.get (taskKey tx.taskId)) = false

/-- A command of a retry has failed, or the key of the task holds something else than a document. -/
def Failing (tx : TxRecord) (steps : List Step) : Prop :=
  ∃ t ∈ steps, t.input ≠ .ok ∨ t.cmd = .read ∧
    ∃ b, t.pre.redis.get (taskKey tx.taskId) = some b ∧ ∀ doc, b ≠ .task doc

/-- What the steps of one repair have done, and what they leave under the key of the record. -/
def Attempt (sv : CompensationService) (tx : TxRecord) (steps : List Step) (left : Option Blob) : Prop :=
  sv.maxRetries ≤ tx.retryCount ∧ left = none ∨
  (tx.retryCount : Int) < sv.maxRetries ∧ (Settled tx steps ∧ left = none ∨
    Failing tx steps ∧ ∃ e, left = some (.tx { tx with retryCount := tx.retryCount + 1, lastError := e }))

theorem Settled.mono {tx : TxRecord} {steps steps' : List Step} (h : Settled tx steps) (hs : steps ⊆ steps') :
    Settled tx steps' := by
  rcases h with h | ⟨t, ht, hc, hi, hr⟩
  · exact .inl h
  · refine .inr ⟨t, hs ht, hc, hi, fun row hrow => ?_⟩
    rcases hr row hrow with ⟨u, hu, hd⟩ | ⟨ho, u, hu, hn⟩
    · exact .inl ⟨u, hs hu, hd⟩
    · exact .inr ⟨ho, u, hs hu, hn⟩

theorem Failing.mono {tx : TxRecord} {steps steps' : List Step} (h : Failing tx steps) (hs : steps ⊆ steps') :
    Failing tx steps' := by
  obtain ⟨t, ht, hf⟩ := h
  exact ⟨t, hs ht, hf⟩

theorem Spares.refl (w : World) : Spares w w := fun _ => .inl rfl

theorem Spares.trans (h : Spares w w₁) (h' : Spares w₁ w₂) : Spares w w₂ := by
  intro id
  rcases h' id with h' | h'
  · rw [h']
    exact h id
  · exact .inr h'

theorem Spares.none (h : Spares w w') (hid : w.tx id = none) : w'.tx id = none := by
  rcases h id with h | h
  · rw [h, hid]
  · exact h

section Others
variable {id : String} {w w₁ w₂ : World}

theorem SparesOthers.refl (id : String) (w : World) : SparesOthers id w w := fun _ _ => .inl rfl

theorem SparesOthers.trans (h : SparesOthers id w w₁) (h' : SparesOthers id w₁ w₂) : SparesOthers id w w₂ := by
  intro id' hne
  rcases h' id' hne with h' | h'
  · rw [h']
    exact h id' hne
  · exact .inr h'

theorem Spares.others (h : Spares w w₁) (id : String) : SparesOthers id w w₁ := fun id' _ => h id'

theorem Tried.spares {sv : CompensationService} (h : Tried sv w w₁ id) (h' : Spares w₁ w₂) : Tried sv w w₂ id := by
  rcases h with h | ⟨tx, e, htx, hc, h⟩
  · exact .inl (h'.none h)
  · rcases h' id with h' | h'
    · exact .inr ⟨tx, e, htx, hc, h'.trans h⟩
    · exact .inl h'

end Others

section Commands
variable (w : World) (i : Fault)

theorem apply_read : Command.apply .read i w = w := by
  unfold Command.apply
  split <;> rfl

theorem spares_setTask (x : String) (v : Blob) (ex : Option ℚ) :
    Spares w (Command.apply (.keys [(taskKey x, .set v ex)]) i w) := by
  intro id
  left
  unfold Command.apply
  split
  · change ((w.redis.set (taskKey x) v ex).strings (txKey id)).map Prod.fst = _
    rw [Redis.strings_set_of_ne _ _ _ _ _ (taskKey_ne_txKey x id).symm]
    rfl
  · rfl

end Commands

section Saving
variable {sv : CompensationService} (w : World) (id id' : String)

theorem tx_del : (w.exec (.keys [(txKey id, .del)])).tx id' = if id' = id then none else w.tx id' := by
  change ((w.redis.del (txKey id)).strings (txKey id')).map Prod.fst = _
  rw [Redis.strings_del]
  simp only [txKey_eq_txKey]
  split <;> rfl

theorem tx_set (b : Blob) (ex : Option ℚ) :
    (w.exec (.keys [(txKey id, .set b ex)])).tx id' = if id' = id then some b else w.tx id' := by
  change ((w.redis.set (txKey id) b ex).strings (txKey id')).map Prod.fst = _
  rw [Redis.strings_set]
  simp only [txKey_eq_txKey]
  split <;> rfl

end Saving

def Closed (tx : TxRecord) : Prop := tx.status = .committed ∨ tx.status = .expired

section Repair
variable {sv : CompensationService} {tx tx' : TxRecord} {w w₁ : World} {s : Traced Command Fault World}
  {α : Type} {f : World → α} {e : PyErr} {r : Except (PyErr × TxRecord) TxRecord}

abbrev TxMeets {ε α : Type} (Q : Except ε α → Traced Command Fault World → Prop)
    (p : Prog Command Fault World ε α) (s : Traced Command Fault World) : Prop :=
  Meets Command.apply TxFault Spares Q p s

theorem meets_query {Q : Except PyErr α → Traced Command Fault World → Prop}
    (hok : ∀ t w₁, Spares s.state w₁ → Q (.ok (f w₁)) ⟨s.steps ++ [t], w₁⟩)
    (hf : ∀ t w₁, Spares s.state w₁ → Q (.error connectionLost) ⟨s.steps ++ [t], w₁⟩) : TxMeets Q (query f) s := by
  intro w₁ i hw hi
  rw [apply_read]
  cases i with
  | ok => exact hok _ w₁ hw
  | fail b => exact hf _ w₁ hw
  | cancel b => cases hi.1

theorem meets_holding {p : Py α} {Q : Except (PyErr × TxRecord) α → Traced Command Fault World → Prop}
    (hp : TxMeets (fun r s' => Q (r.mapError (·, tx)) s') p s) : TxMeets Q (holding tx p) s :=
  hp.recover (fun _ _ h => h) fun _ _ h => h

/-- How a retry ends: the record is removed, or what it raises carries the transaction as it
was or already closed. -/
def Left (tx : TxRecord) (w : World) : Except (PyErr × TxRecord) TxRecord → Traced Command Fault World → Prop
  | .ok tx', s => SparesOthers tx.txId w s.state ∧ s.state.tx tx.txId = none ∧ tx'.txId = tx.txId ∧ Closed tx' ∧
      Settled tx s.steps
  | .error (e, tx'), s => SparesOthers tx.txId w s.state ∧ e.isException = true ∧
      (tx' = tx ∧ Failing tx s.steps ∨ tx'.txId = tx.txId ∧ Closed tx' ∧ Settled tx s.steps)

theorem Left.next (h : Left tx w r s) (hw : Spares s.state w₁) (t : Step) : Left tx w r ⟨s.steps ++ [t], w₁⟩ := by
  have hs : s.steps ⊆ s.steps ++ [t] := subset_append_left ..
  match r, h with
  | .ok tx', ⟨ho, hn, hid, hc, hd⟩ => exact ⟨ho.trans (hw.others _), hw.none hn, hid, hc, hd.mono hs⟩
  | .error (e, tx'), ⟨ho, he, htx'⟩ =>
    refine ⟨ho.trans (hw.others _), he, ?_⟩
    rcases htx' with ⟨heq, hf⟩ | ⟨hid, hc, hd⟩
    · exact .inl ⟨heq, hf.mono hs⟩
    · exact .inr ⟨hid, hc, hd.mono hs⟩

theorem Left.lost (h : Left tx w (.ok tx') s) : Left tx w (.error (connectionLost, tx')) s := ⟨h.1, rfl, .inr h.2.2⟩

theorem Left.lostAgain (h : Left tx w (.error (e, tx')) s) : Left tx w (.error (connectionLost, tx')) s :=
  ⟨h.1, rfl, h.2.2⟩

/-- The session around a retry does not change how it ends. -/
theorem meets_txSession {body : TxPy TxRecord} (h : TxMeets (Left tx w) body s) :
    TxMeets (Left tx w) (txSession body) s := by
  unfold txSession
  refine Meets.ensure (Q := Left tx w) ?_ fun r s hl => ?_
  · refine Meets.handle (Q := Left tx w) ?_ (fun _ _ hl => hl) fun raised s hl => ?_
    · refine h.bind (fun tx' s hl => ?_) fun _ _ hl => hl
      refine Meets.bind (Q := fun r s' => match r with
        | .ok _ => Left tx w (.ok tx') s'
        | .error raised => Left tx w (.error raised) s') ?_ (fun _ _ h => h) fun _ _ h => h
      exact meets_holding (meets_query (fun t _ hw => hl.next hw t) fun t _ hw => (hl.next hw t).lost)
    · rw [if_pos hl.2.1]
      refine Meets.bind (Q := fun r s' => match r with
        | .ok _ => Left tx w (.error raised) s'
        | .error raised => Left tx w (.error raised) s') ?_ (fun _ _ h => h) fun _ _ h => h
      exact meets_holding (meets_query (fun t _ hw => hl.next hw t) fun t _ hw => (hl.next hw t).lostAgain)
  · match r, hl with
    | .ok tx', hl =>
      exact meets_holding (meets_query (fun t _ hw => hl.next hw t) fun t _ hw => (hl.next hw t).lost)
    | .error (e, tx'), hl =>
      exact meets_holding (meets_query (fun t _ hw => hl.next hw t) fun t _ hw => (hl.next hw t).lostAgain)

/-- A command that spares the records: the retry goes on, or fails with the transaction as it was. -/
theorem meets_await {c : Command} {k : α → TxPy TxRecord} (hc : ∀ i w, Spares w (c.apply i w))
    (hs : SparesOthers tx.txId w s.state)
    (hk : ∀ w₁, SparesOthers tx.txId w (c.apply .ok w₁) →
      TxMeets (Left tx w) (k (f w₁)) ⟨s.steps ++ [⟨c, .ok, w₁⟩], c.apply .ok w₁⟩) :
    TxMeets (Left tx w) ((holding tx (await c fun w => .ok (f w))).bind k) s := by
  intro w₁ i hw₁ hi
  have ho : SparesOthers tx.txId w (c.apply i w₁) := hs.trans ((hw₁.trans (hc i w₁)).others _)
  cases i with
  | ok => exact hk w₁ ho
  | fail b => exact ⟨ho, rfl, .inl ⟨rfl, ⟨c, .fail b, w₁⟩, by simp, .inl (by simp)⟩⟩
  | cancel b => cases hi.1

theorem spares_read (i : Fault) (w : World) : Spares w (Command.apply .read i w) := by
  rw [apply_read]
  exact .refl w

theorem withStatus_ok {status : String} {b : Blob} {doc : TaskDoc} (h : withStatus status b = .ok doc) :
    doc.status = status := by
  cases b with
  | task d =>
    cases h
    rfl
  | num n | text t | tx record | retry event => cases h

variable (hredis : sv.hasRedis = true) {Q : Except PyErr Unit → Traced Command Fault World → Prop}
include hredis

omit hredis in
theorem meets_save (op : KeyOp) {left : Option Blob}
    (hs : sv.saveTransaction tx = perform (.keys [(txKey tx.txId, op)]))
    (hop : ∀ (w : World) id, (w.exec (.keys [(txKey tx.txId, op)])).tx id = if id = tx.txId then left else w.tx id)
    (hQ : ∀ t w', SparesOthers tx.txId s.state w' → w'.tx tx.txId = left → Q (.ok ()) ⟨s.steps ++ [t], w'⟩) :
    TxMeets Q (sv.saveTransaction tx) s := by
  rw [hs]
  intro w₁ i hw hi
  obtain rfl : i = .ok := hi.2 _ _ rfl
  refine hQ _ _ ((hw.others tx.txId).trans fun id hid => .inl ?_) ?_
  · exact (hop w₁ id).trans (if_neg hid)
  · exact (hop w₁ tx.txId).trans (if_pos rfl)

theorem meets_save_closed (htx : Closed tx)
    (hQ : ∀ t w', SparesOthers tx.txId s.state w' → w'.tx tx.txId = none → Q (.ok ()) ⟨s.steps ++ [t], w'⟩) :
    TxMeets Q (sv.saveTransaction tx) s := by
  refine meets_save .del ?_ (fun w id => tx_del w tx.txId id) hQ
  unfold saveTransaction
  rw [if_pos hredis]
  rcases htx with htx | htx <;> rw [htx]

theorem meets_save_open (htx : isPending tx = true)
    (hQ : ∀ t w', SparesOthers tx.txId s.state w' → w'.tx tx.txId = some (.tx tx) → Q (.ok ()) ⟨s.steps ++ [t], w'⟩) :
    TxMeets Q (sv.saveTransaction tx) s := by
  refine meets_save (.set (.tx tx) (some 300)) ?_ (fun w id => tx_set w tx.txId id _ _) hQ
  unfold saveTransaction
  rw [if_pos hredis]
  rcases of_decide_eq_true htx with htx | htx <;> rw [htx]

theorem meets_close {Q : Except (PyErr × TxRecord) TxRecord → Traced Command Fault World → Prop} {closed : TxRecord}
    (hid : closed.txId = tx.txId) (hc : Closed closed)
    (hQ : ∀ t w', SparesOthers tx.txId s.state w' → w'.tx tx.txId = none → Q (.ok closed) ⟨s.steps ++ [t], w'⟩) :
    TxMeets Q (do holding closed (sv.saveTransaction closed); pure closed) s := by
  refine Meets.bind (Q := fun r s' => Q (r.map fun _ => closed) s') ?_ (fun _ _ h => h) fun _ _ h => h
  refine meets_holding (meets_save_closed hredis hc fun t w' ho hn => ?_)
  rw [hid] at ho hn
  exact hQ t w' ho hn

theorem meets_markExpired (hw : SparesOthers tx.txId w s.state) (hs : Settled tx s.steps) :
    TxMeets (Left tx w) (sv.markExpired tx) s :=
  meets_close hredis rfl (.inr rfl) fun t _ ho hn =>
    ⟨hw.trans ho, hn, rfl, .inr rfl, hs.mono (subset_append_left _ [t])⟩

theorem meets_markCommitted (hw : SparesOthers tx.txId w s.state) (hs : Settled tx s.steps) :
    TxMeets (Left tx w) (sv.markCommitted tx) s :=
  meets_close hredis rfl (.inl rfl) fun t _ ho hn =>
    ⟨hw.trans ho, hn, rfl, .inl rfl, hs.mono (subset_append_left _ [t])⟩

theorem meets_retryCreateTask : TxMeets (Left tx s.state) (sv.retryCreateTask tx) s := by
  unfold retryCreateTask
  refine meets_txSession (meets_await spares_read (.refl _ s.state) fun w₁ hw₁ => ?_)
  cases hrow : w₁.db.tasks.find tx.taskId with
  | none =>
    refine meets_markExpired hredis hw₁ (.inr ⟨⟨.read, .ok, w₁⟩, by simp, rfl, rfl, fun row h => ?_⟩)
    cases hrow.symm.trans h
  | some task =>
    refine meets_await (fun i w => spares_setTask w i _ _ _) hw₁ fun w₂ hw₂ => ?_
    refine meets_markCommitted hredis hw₂ (.inr ⟨⟨.read, .ok, w₁⟩, by simp, rfl, rfl, fun row h => .inl ?_⟩)
    cases hrow.symm.trans h
    exact ⟨⟨_, .ok, w₂⟩, by simp, taskData task, rfl, rfl, rfl⟩

theorem meets_retryUpdateStatus (hop : tx.operation = "update_status") :
    TxMeets (Left tx s.state) (sv.retryUpdateStatus tx) s := by
  unfold retryUpdateStatus
  refine meets_txSession (meets_await spares_read (.refl _ s.state) fun w₁ hw₁ => ?_)
  cases hrow : w₁.db.tasks.find tx.taskId with
  | none =>
    refine meets_markExpired hredis hw₁ (.inr ⟨⟨.read, .ok, w₁⟩, by simp, rfl, rfl, fun row h => ?_⟩)
    cases hrow.symm.trans h
  | some task =>
    refine meets_await spares_read hw₁ fun w₂ hw₂ => ?_
    dsimp only
    cases hdata : w₂.redis.get (taskKey tx.taskId) with
    | none =>
      refine meets_markCommitted hredis hw₂ (.inr ⟨⟨.read, .ok, w₁⟩, by simp, rfl, rfl, fun row h => .inr ⟨hop, ?_⟩⟩)
      exact ⟨⟨.read, .ok, w₂⟩, by simp, rfl, rfl, congrArg Blob.truthy hdata⟩
    | some b =>
      dsimp only [Option.getD_some]
      split
      · split
        · next doc hdoc =>
          refine meets_await (fun i w => spares_setTask w i _ _ _) hw₂ fun w₃ hw₃ => ?_
          refine meets_markCommitted hredis hw₃ (.inr ⟨⟨.read, .ok, w₁⟩, by simp, rfl, rfl, fun row h => .inl ?_⟩)
          cases hrow.symm.trans h
          exact ⟨⟨_, .ok, w₃⟩, by simp, doc, rfl, withStatus_ok hdoc, rfl⟩
        · next e he =>
          obtain ⟨hex, hno⟩ := withStatus_error he
          exact ⟨hw₂, hex, .inl ⟨rfl, ⟨.read, .ok, w₂⟩, by simp, .inr ⟨rfl, b, hdata, hno⟩⟩⟩
      · next hfalse =>
        refine meets_markCommitted hredis hw₂ (.inr ⟨⟨.read, .ok, w₁⟩, by simp, rfl, rfl, fun row h => .inr ⟨hop, ?_⟩⟩)
        refine ⟨⟨.read, .ok, w₂⟩, by simp, rfl, rfl, (congrArg Blob.truthy hdata).trans ?_⟩
        exact Bool.eq_false_iff.mpr hfalse

/-- A retry settles what it is for and removes the record, or fails. -/
theorem meets_retryOperation : TxMeets (Left tx s.state) (sv.retryOperation tx) s := by
  unfold retryOperation
  split
  · exact meets_retryCreateTask hredis
  · next hcreate =>
    split
    · next hop => exact meets_retryUpdateStatus hredis hop
    · next hupdate => exact meets_markExpired hredis (.refl _ s.state) (.inl ⟨hcreate, hupdate⟩)

/-- A repair always returns; the record is removed, or tried in vain and counted. -/
theorem meets_repairTransaction (htx : isPending tx = true) :
    TxMeets (fun r s' => r = .ok () ∧ SparesOthers tx.txId s.state s'.state ∧
      Attempt sv tx s'.steps (s'.state.tx tx.txId)) (sv.repairTransaction tx) s := by
  unfold repairTransaction
  split
  · next hspent =>
    refine Meets.recover (Q := fun r s' => r = .ok () ∧ SparesOthers tx.txId s.state s'.state ∧
      s'.state.tx tx.txId = none) ?_ (fun _ _ h => ⟨rfl, h.2.1, .inl ⟨hspent, h.2.2⟩⟩) fun e s' h => by cases h.1
    refine Meets.bind (Q := fun r s' => r = .ok { tx with status := .expired } ∧
      SparesOthers tx.txId s.state s'.state ∧ s'.state.tx tx.txId = none) ?_ (fun _ _ h => ⟨rfl, h.2⟩)
      fun e s' h => by cases h.1
    exact meets_close hredis rfl (.inr rfl) fun t w' ho hn => ⟨rfl, ho, hn⟩
  · next hco =>
    have hlt : (tx.retryCount : Int) < sv.maxRetries := by omega
    have hr : TxMeets (fun r s' => match r with
        | .ok () => ∃ tx', Left tx s.state (.ok tx') s'
        | .error raised => Left tx s.state (.error raised) s') (sv.retryOperation tx).void s :=
      (meets_retryOperation hredis).bind (fun tx' _ h => ⟨tx', h⟩) fun _ _ h => h
    refine hr.recover (fun _ _ h => ?_) ?_
    · obtain ⟨tx', ho, hn, -, -, hs⟩ := h
      exact ⟨rfl, ho, .inr ⟨hlt, .inl ⟨hs, hn⟩⟩⟩
    · rintro ⟨e, tx'⟩ s₁ ⟨ho, he, htx'⟩
      dsimp only
      rw [if_pos he]
      rcases htx' with ⟨rfl, hf⟩ | ⟨hid, hc, hs⟩
      · refine meets_save_open hredis htx fun t w' ho' hn => ⟨rfl, ho.trans ho', .inr ⟨hlt, .inr ?_⟩⟩
        exact ⟨hf.mono (subset_append_left _ [t]), e.str, hn⟩
      · refine meets_save_closed hredis hc fun t w' ho' hn => ?_
        dsimp only at ho' hn
        rw [hid] at ho' hn
        exact ⟨rfl, ho.trans ho', .inr ⟨hlt, .inl ⟨hs.mono (subset_append_left _ [t]), hn⟩⟩⟩

/-- The loop over the records returns, and each record is attempted in a part of it. -/
theorem repairs_all {txs : List TxRecord} {steps : List Step} {r : Except PyErr Unit} {w' : World}
    (hn : (txs.map TxRecord.txId).Nodup) (htx : ∀ tx ∈ txs, isPending tx = true ∧ w.tx tx.txId = some (.tx tx))
    (hl : ∀ id, w₁.tx id ≠ none → id ∈ txs.map TxRecord.txId)
    (h : Runs Command.apply TxFault Spares (Prog.forEach sv.repairTransaction txs) w₁ steps r w') :
    r = .ok () ∧ (∀ id, Tried sv w w' id) ∧ ∀ tx ∈ txs, ∃ before part after w₂ w₃, steps = before ++ part ++ after ∧
      Runs Command.apply TxFault Spares (sv.repairTransaction tx) w₂ part (.ok ()) w₃ ∧
        Attempt sv tx part (w₃.tx tx.txId) := by
  -- the records already behind the loop have been tried
  let J (rest : List TxRecord) (w' : World) : Prop :=
    (rest.map TxRecord.txId).Nodup ∧ (∀ tx ∈ rest, isPending tx = true ∧ w.tx tx.txId = some (.tx tx)) ∧
      ∀ id ∉ rest.map TxRecord.txId, Tried sv w w' id
  have hst : J txs w₁ := by
    refine ⟨hn, htx, fun id hid => .inl ?_⟩
    by_contra hso
    exact hid (hl id hso)
  have hround (tx : TxRecord) (rest : List TxRecord) (w₂ : World) (steps : List Step) (r : Except PyErr Unit) (w₃ : World)
      (hJ : J (tx :: rest) w₂) (hru : Runs Command.apply TxFault Spares (sv.repairTransaction tx) w₂ steps r w₃) :
      r = .ok () ∧ J rest w₃ := by
    obtain ⟨hn, htx, ht⟩ := hJ
    rw [map_cons, nodup_cons] at hn
    obtain ⟨hp, hr⟩ := htx tx mem_cons_self
    obtain ⟨rfl, ho, hat⟩ := (meets_repairTransaction (s := ⟨[], w₂⟩) hredis hp).sound hru
    refine ⟨rfl, hn.2, fun tx' htx' => htx tx' (mem_cons_of_mem _ htx'), fun id hid => ?_⟩
    by_cases heq : id = tx.txId
    · subst heq
      rcases hat with ⟨-, hno⟩ | ⟨hlt, ⟨-, hno⟩ | ⟨-, e, hsto⟩⟩
      · exact .inl hno
      · exact .inl hno
      · exact .inr ⟨tx, e, hr, hlt, hsto⟩
    · have ht' : Tried sv w w₂ id := ht id (by simp [heq, hid])
      rcases ho id heq with hs | hno
      · unfold Tried at ht' ⊢
        rw [hs]
        exact ht'
      · exact .inl hno
  obtain ⟨hr, hJ, hparts⟩ := Runs.forEach hround hst h
  refine ⟨hr, fun id => hJ.2.2 id not_mem_nil, fun tx hm => ?_⟩
  obtain ⟨before, part, after, w₂, w₃, heq, hru⟩ := hparts tx hm
  exact ⟨before, part, after, w₂, w₃, heq, hru,
    ((meets_repairTransaction (s := ⟨[], w₂⟩) hredis (htx tx hm).1).sound hru).2.2⟩

end Repair

/-- What a scan returns: the records that are there, each once. -/
structure Scanned (w : World) (ids : List String) (txs : List TxRecord) (w' : World) : Prop where
  spares : Spares w w'
  records : ∀ tx ∈ txs, isPending tx = true ∧ w.tx tx.txId = some (.tx tx)
  sublist : (txs.map TxRecord.txId).Sublist ids
  complete : ∀ id ∈ ids, w'.tx id ≠ none → id ∈ txs.map TxRecord.txId

theorem scanned_cons (hw : AllPending w) (hw₂ : Spares w w₂) (hw' : Spares w₂ w')
    {ids : List String} {txs : List TxRecord} (h : Scanned w ids txs w') :
    Scanned w (id :: ids) (((w₂.tx id).bind Blob.txRecord).toList ++ txs) w' := by
  cases hid : w₂.tx id with
  | none =>
    refine ⟨h.spares, h.records, h.sublist.cons id, fun id' hid' hs => ?_⟩
    rcases mem_cons.mp hid' with rfl | hid'
    · exact absurd (hw'.none hid) hs
    · exact h.complete id' hid' hs
  | some b =>
    have hsa : w.tx id = some b := by
      rcases hw₂ id with heq | hn
      · rw [← heq, hid]
      · rw [hid] at hn
        cases hn
    obtain ⟨tx, rfl, rfl, hp⟩ := hw id b hsa
    refine ⟨h.spares, ?_, h.sublist.cons_cons _, fun id' hid' hs => ?_⟩
    · intro tx' htx'
      rcases mem_cons.mp htx' with rfl | htx'
      · exact ⟨hp, hsa⟩
      · exact h.records tx' htx'
    · rcases mem_cons.mp hid' with rfl | hid'
      · exact mem_cons_self
      · exact mem_cons_of_mem _ (h.complete id' hid' hs)

theorem meets_readTransactions {s : Traced Command Fault World} (hw : AllPending w) (ids : List String)
    (hs : Spares w s.state) :
    Meets Command.apply NoFault Spares
      (fun r s' => ∃ txs, r = .ok txs ∧ Spares s.state s'.state ∧ Scanned w ids txs s'.state)
      (readTransactions ids) s := by
  induction ids generalizing s with
  | nil =>
    refine ⟨[], rfl, .refl s.state, hs, ?_, List.Sublist.refl _, ?_⟩
    · exact fun tx h => absurd h not_mem_nil
    · exact fun id h => absurd h not_mem_nil
  | cons id ids ih =>
    intro w₂ i hw₂ hi
    cases hi
    change Meets Command.apply NoFault Spares _
      ((readTransactions ids).bind fun txs => .ret (((w₂.tx id).bind Blob.txRecord).toList ++ txs))
      ⟨s.steps ++ [⟨.read, .ok, w₂⟩], w₂⟩
    refine (ih (hs.trans hw₂)).bind (fun txs s' h => ?_) fun e s' h => ?_
    · obtain ⟨txs', heq, hw', hsc⟩ := h
      cases heq
      exact ⟨_, rfl, hw₂.trans hw', scanned_cons hw (hs.trans hw₂) hw' hsc⟩
    · obtain ⟨txs, h, -⟩ := h
      cases h

section
variable (hredis : sv.hasRedis = true) (hw : AllPending w)
include hredis hw

theorem meets_scanPendingTransactions (scanned : List String) :
    Meets Command.apply NoFault Spares (fun r s' => ∃ txs, r = .ok txs ∧ Scanned w scanned txs s'.state)
      (sv.scanPendingTransactions scanned) ⟨[], w⟩ := by
  unfold scanPendingTransactions
  rw [if_pos hredis]
  intro w₁ i hw₁ hi
  cases hi
  change Meets Command.apply NoFault Spares _
    (exceptException ((readTransactions scanned).bind fun txs => .ret (txs.filter isPending)) fun _ => .ret [])
    ⟨[⟨.read, .ok, w₁⟩], w₁⟩
  refine Meets.handle (Q := fun r s' => ∃ txs, r = .ok txs ∧ Scanned w scanned txs s'.state) ?_ (fun _ _ h => h) ?_
  · refine (meets_readTransactions hw scanned hw₁).bind (fun txs s' h => ?_) fun e s' h => ?_
    · obtain ⟨txs', heq, -, hs⟩ := h
      cases heq
      refine ⟨_, congrArg _ (filter_eq_self.mpr fun tx htx => ?_), hs⟩
      exact (hs.records tx htx).1
    · obtain ⟨txs, h, -⟩ := h
      cases h
  · rintro e s' ⟨txs, h, -⟩
    cases h

theorem Call.scanned_txs (c : Call sv w w') : Scanned w c.scanned c.txs c.afterScan := by
  obtain ⟨txs, heq, h⟩ := (meets_scanPendingTransactions hredis hw c.scanned).sound c.scan
  cases heq
  exact h

theorem Call.attempted (c : Call sv w w') (id : String) (hid : c.afterScan.tx id ≠ none) :
    id ∈ c.txs.map TxRecord.txId := by
  have hs := c.scanned_txs hredis hw
  refine hs.complete id (c.lists id fun hn => hid ?_) hid
  exact hs.spares.none hn

theorem Call.repairs (c : Call sv w w') {steps : List Step} {r : Except PyErr Unit} {w₁ : World}
    (h : Runs Command.apply TxFault Spares (Prog.forEach sv.repairTransaction c.txs) c.afterScan steps r w₁) :
    r = .ok () ∧ (∀ id, Tried sv w w₁ id) ∧ ∀ tx ∈ c.txs, ∃ before part after w₂ w₃, steps = before ++ part ++ after ∧
      Runs Command.apply TxFault Spares (sv.repairTransaction tx) w₂ part (.ok ()) w₃ ∧
        Attempt sv tx part (w₃.tx tx.txId) := by
  have hs := c.scanned_txs hredis hw
  exact repairs_all hredis (c.nodup.sublist hs.sublist) hs.records (c.attempted hredis hw) h

end

theorem issues_repairMissing (batchSize : Nat) (order : List String) :
    Issues (fun _ => True) (fun c => ∀ i w, Spares w (c.apply i w)) (fun _ => True)
      (repairMissing batchSize order) := by
  have hr : ∀ i w, Spares w (Command.apply .read i w) := spares_read
  unfold repairMissing scanMissingRedisTasks
  refine Issues.bind (Q := fun _ => True) ?_ fun missing _ => ?_
  · refine issues_session hr ?_
    refine Issues.bind (Q := fun _ => True) (issues_immediately hr fun _ _ => trivial) fun now _ => ?_
    refine Issues.bind (Q := fun _ => True) (issues_query hr fun _ _ => trivial) fun tasks _ => ?_
    split
    · trivial
    · exact issues_query hr fun _ _ => trivial
  · refine Issues.forEach fun row _ => issues_exceptException (issues_perform ?_) fun _ => trivial
    exact fun i w => spares_setTask w i _ _ _

theorem Call.tried (hredis : sv.hasRedis = true) (hw : AllPending w)
    (c : Call sv w w') (id : String) : Tried sv w w' id := by
  rcases c.repair.of_bind with ⟨_, w₁, _, _, -, hloop, hmissing⟩ | ⟨e, -, hloop⟩
  · have ht := (c.repairs hredis hw hloop).2.1
    refine hmissing.of_issues (J := fun w' => ∀ id, Tried sv w w' id)
      (issues_repairMissing sv.batchSize c.order) ?_ ?_ ht id
    · exact fun w₁ w₂ hs ht id => (ht id).spares hs
    · exact fun cmd i w₁ hs _ ht id => (ht id).spares (hs i w₁)
  · exact (c.repairs hredis hw hloop).2.1 id

theorem AllPending.tried (hw : AllPending w) (h : ∀ id, Tried sv w w' id) : AllPending w' := by
  intro id b hb
  rcases h id with hn | ⟨tx, e, htx, -, hs⟩
  · rw [hn] at hb
    cases hb
  · rw [hs] at hb
    cases hb
    obtain ⟨tx', heq, hid, hp⟩ := hw id _ htx
    cases heq
    exact ⟨_, rfl, hid, hp⟩

theorem AllPending.spares (hw : AllPending w) (h : Spares w w') : AllPending w' := by
  intro id b hb
  rcases h id with hs | hn
  · exact hw id b (hs.symm.trans hb)
  · rw [hn] at hb
    cases hb

section
variable (hredis : sv.hasRedis = true) (hw : AllPending w)
include hredis hw

/-- A record that outlives some calls has been counted once in each. -/
theorem Calls.counted {n : Nat} (h : Calls sv n w w') : AllPending w' ∧ ∀ id tx', w'.tx id = some (.tx tx') →
      ∃ tx, w.tx id = some (.tx tx) ∧ tx'.retryCount = tx.retryCount + n ∧
        (0 < n → (tx'.retryCount : Int) ≤ sv.maxRetries) := by
  induction h with
  | none hs =>
    refine ⟨hw.spares hs, fun id tx' htx' => ⟨tx', ?_, rfl, fun h => absurd h (Nat.lt_irrefl 0)⟩⟩
    rcases hs id with hsa | hn
    · rw [← hsa, htx']
    · rw [hn] at htx'
      cases htx'
  | @call n w w₁ w₂ w' _ c hs ih =>
    obtain ⟨hp, hc⟩ := ih hw
    have ht : ∀ id, Tried sv w₁ w' id := fun id => (c.tried hredis hp id).spares hs
    refine ⟨hp.tried ht, fun id tx' htx' => ?_⟩
    rcases ht id with hn | ⟨tx₁, e, htx₁, hlt, hst⟩
    · rw [hn] at htx'
      cases htx'
    · obtain ⟨tx, htx, heq, -⟩ := hc id tx₁ htx₁
      rw [hst] at htx'
      cases htx'
      refine ⟨tx, htx, ?_, fun _ => ?_⟩
      · dsimp only
        omega
      · dsimp only
        omega

end

/-- Every record is removed after as many calls as it has tries left and one more; each call it
outlives counts once; and in each call the loop over the records makes an attempt at every record
that is there, whatever becomes of the others. -/
theorem compensation_bounded {sv : CompensationService} (hredis : sv.hasRedis = true) {w w' : World}
    (hw : AllPending w) {n : Nat} (h : Calls sv n w w') {id : String} {tx : TxRecord}
    (htx : w.tx id = some (.tx tx)) :
    (∀ tx', w'.tx id = some (.tx tx') → tx'.retryCount = tx.retryCount + n) ∧
      (max 1 (sv.maxRetries - tx.retryCount + 1) ≤ n → w'.tx id = none) ∧
      ∀ {w''} (c : Call sv w' w'') steps r w₁,
        Runs Command.apply TxFault Spares (Prog.forEach sv.repairTransaction c.txs) c.afterScan steps r w₁ →
          r = .ok () ∧ (∀ id', Tried sv w' w₁ id') ∧
          (∀ id', c.afterScan.tx id' ≠ none → id' ∈ c.txs.map TxRecord.txId) ∧
          ∀ tx ∈ c.txs, ∃ before part after w₂ w₃, steps = before ++ part ++ after ∧
            Runs Command.apply TxFault Spares (sv.repairTransaction tx) w₂ part (.ok ()) w₃ ∧
              Attempt sv tx part (w₃.tx tx.txId) := by
  obtain ⟨hp, hc⟩ := h.counted hredis hw
  have hr (tx' : TxRecord) (htx' : w'.tx id = some (.tx tx')) :
      tx'.retryCount = tx.retryCount + n ∧ (0 < n → (tx'.retryCount : Int) ≤ sv.maxRetries) := by
    obtain ⟨tx₀, htx₀, hs, hle⟩ := hc id tx' htx'
    rw [htx] at htx₀
    cases htx₀
    exact ⟨hs, hle⟩
  refine ⟨fun tx' htx' => (hr tx' htx').1, fun hn => ?_, fun c steps r w₁ hru => ?_⟩
  · cases hb : w'.tx id with
    | none => rfl
    | some b =>
      obtain ⟨tx', rfl, -, -⟩ := hp id b hb
      obtain ⟨hs, hle⟩ := hr tx' hb
      omega
  · obtain ⟨hok, htried, hparts⟩ := c.repairs hredis hp hru
    exact ⟨hok, htried, c.attempted hredis hp, hparts⟩

def pendingTx (id : String) : TxRecord := { txId := id, taskId := "t", operation := "create_task", createdAt := 0 }

def twoPending : World :=
  ((World.storing (bareRow "t" .running)).exec (.keys [(txKey "2", .set (.tx (pendingTx "2")) none)])).exec
    (.keys [(txKey "1", .set (.tx (pendingTx "1")) none)])

/-- The first read of the database fails, and nothing after it. -/
def firstFails : Prog.Ran Command Fault World PyErr Unit :=
  (({} : CompensationService).repairAll [pendingTx "1", pendingTx "2"] []).runOn Command.apply .ok [.fail false] twoPending

theorem tx_twoPending (id : String) : twoPending.tx id =
    if id = "1" then some (.tx (pendingTx "1")) else if id = "2" then some (.tx (pendingTx "2")) else none := by
  rw [twoPending, tx_set, tx_set]
  rfl

def repairTwo : Call {} twoPending firstFails.state where
  scanned := ["1", "2"]
  nodup := by decide
  lists id hid := by
    rw [tx_twoPending] at hid
    by_cases h₁ : id = "1"
    · simp [h₁]
    · by_cases h₂ : id = "2"
      · simp [h₂]
      · exact absurd (by rw [if_neg h₁, if_neg h₂]) hid
  txs := [pendingTx "1", pendingTx "2"]
  afterScan := twoPending
  outcome := firstFails.outcome
  scanSteps := _
  scan := by
    let ran := (({} : CompensationService).scanPendingTransactions ["1", "2"]).runOn Command.apply .ok [] twoPending
    have hscan : ran.outcome = .ok [pendingTx "1", pendingTx "2"] := by decide +kernel
    have hok : ∀ t ∈ ran.steps, t.input = .ok := by decide +kernel
    have hr : Runs Command.apply NoFault Spares _ twoPending ran.steps ran.outcome twoPending :=
      Runs.of_runOn Spares.refl hok
    rw [hscan] at hr
    exact hr
  order := []
  steps := firstFails.steps
  repair := by
    refine Runs.of_runOn Spares.refl fun t ht => ?_
    have hs : ∀ t ∈ firstFails.steps, t.input = .ok ∨ t.cmd = .read ∧ t.input = .fail false := by decide +kernel
    rcases hs t ht with hi | ⟨hc, hi⟩
    · rw [hi]
      exact ⟨rfl, fun _ _ _ => rfl⟩
    · rw [hc, hi]
      exact ⟨rfl, fun _ _ h => by cases h⟩

/-- The repair of the first record fails and is counted; the second is repaired in the same call. -/
theorem compensation_bounded_firstFails :
    (∀ tx', firstFails.state.tx "1" = some (.tx tx') → tx'.retryCount = 1) ∧
    firstFails.state.tx "1" = some (.tx { pendingTx "1" with retryCount := 1, lastError := "Connection lost" }) ∧
    firstFails.state.tx "2" = none ∧
    firstFails.state.redis.get (taskKey "t") = some (.task (taskData (bareRow "t" .running))) ∧
    ∀ steps r w₁, Runs Command.apply TxFault Spares
        (Prog.forEach ({} : CompensationService).repairTransaction [pendingTx "1", pendingTx "2"]) twoPending steps r w₁ →
      r = .ok () ∧ ∀ tx ∈ [pendingTx "1", pendingTx "2"], ∃ part, ∃ w₃ : World,
        part <:+: steps ∧ Attempt {} tx part (w₃.tx tx.txId) := by
  have hp : AllPending twoPending := by
    intro id b hb
    rw [tx_twoPending] at hb
    split at hb
    · rename_i hid
      cases hb
      exact ⟨pendingTx "1", rfl, hid.symm, rfl⟩
    · split at hb
      · rename_i hid
        cases hb
        exact ⟨pendingTx "2", rfl, hid.symm, rfl⟩
      · cases hb
  have hc : Calls {} 1 twoPending firstFails.state := .call (.none (.refl _)) repairTwo (.refl _)
  have htx : twoPending.tx "1" = some (.tx (pendingTx "1")) := tx_twoPending "1"
  refine ⟨(compensation_bounded rfl hp hc htx).1, by decide +kernel, by decide +kernel, by decide +kernel,
    fun steps r w₁ hru => ?_⟩
  obtain ⟨hr, -, -, hat⟩ := (compensation_bounded rfl hp (.none (.refl _)) htx).2.2 repairTwo steps r w₁ hru
  refine ⟨hr, fun tx hm => ?_⟩
  obtain ⟨before, part, after, w₂, w₃, heq, -, ha⟩ := hat tx hm
  exact ⟨part, w₃, ⟨before, after, heq.symm⟩, ha⟩

end CompensationService

end AsyncScheduler
