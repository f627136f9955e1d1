import AsyncScheduler.Platform.RowEffects
import AsyncScheduler.Services.Tracking

/-!
# Task completion node

The final state goes to the database and the callback is sent, both at the same time. What either of
them raises is only logged.
-/

namespace AsyncScheduler

/-- A result value: its JSON text, and for a dict the text of its entry `error`. -/
structure ResultValue where
  text : String
  error : Option String := none
  deriving DecidableEq, Repr

structure TaskCompletionNode where
  hasDb : Bool
  hasRedis : Bool
  inlineRetries : Nat := 3
  maxDurableAttempts : Int := 8
  codec : EventCodec

structure Completion where
  taskId : String
  status : String
  result : Option ResultValue := none
  callbackUrl : String := ""
  tenantId : String := ""
  deriving DecidableEq, Repr

def TaskCompletionNode.plain : TaskCompletionNode :=
  { hasDb := true, hasRedis := true, codec := .quoted }

namespace TaskCompletionNode

/-- The status that is written for a row; only `completed` and `failed` go through the
state machine. -/
def nextStatus (current : TaskStatus) (status : String) : Except PyErr String :=
  if status = "completed" then (TaskStateMachine.transition current .complete).map TaskStatus.value
  else if status = "failed" then (TaskStateMachine.transition current .fail).map TaskStatus.value
  else .ok status

def errorMessage (r : Completion) : String :=
  if r.status = "failed" then slice ((r.result.bind ResultValue.error).getD "") 2000 else ""

def outputData (r : Completion) : Option String := r.result.map ResultValue.text

/-- The update of an existing row or the insert of a new one; the insert gives no task type. -/
def persistWrite (r : Completion) : Option TaskRecord → Except PyErr DbWrite
  | some row =>
    (nextStatus row.status r.status).map fun next =>
      .updateTask r.taskId next (outputData r) (errorMessage r)
  | none => .ok (.insertTask {
      taskId := r.taskId, tenantId := r.tenantId, status := r.status, outputData := outputData r
      errorMessage := given (some (errorMessage r)) })

/-- A report updates a row that may move to its status, or inserts a missing one. -/
theorem persistWrite_eq_ok {r : Completion} {row : Option TaskRecord} {write : DbWrite}
    (h : persistWrite r row = .ok write) :
    (∃ old next, row = some old ∧ nextStatus old.status r.status = .ok next ∧
      write = .updateTask r.taskId next (outputData r) (errorMessage r)) ∨
    (row = none ∧ ∃ record : TaskInsert, record.taskType = none ∧ write = .insertTask record) := by
  cases row with
  | none => exact .inr ⟨rfl, _, rfl, (Except.ok.inj h).symm⟩
  | some old =>
    refine .inl ⟨old, ?_⟩
    simp only [persistWrite] at h
    cases hn : nextStatus old.status r.status with
    | error e => simp [hn, Except.map] at h
    | ok next =>
      refine ⟨next, rfl, rfl, ?_⟩
      simpa [hn, Except.map] using h.symm

def outboxWrites (r : Completion) : Py (List DbWrite) :=
  if r.callbackUrl = "" then
    pure []
  else do
    let t ← time
    pure [.insertOutbox ⟨r.taskId, r.tenantId, r.callbackUrl, r.status, outputData r, ⌊t⌋⟩]

/-- One transaction for the final state and the outbox; the event after it is best effort. -/
def saveFinal (r : Completion) (write : DbWrite) : Py Unit := do
  let outbox ← outboxWrites r
  commit (write :: outbox)
  exceptException
    (TaskTimelineService.emit r.taskId none ("task_" ++ r.status) [("callback_url", r.callbackUrl)])
    fun _ => pure ()

def persist (node : TaskCompletionNode) (r : Completion) : Py Unit :=
  if node.hasDb then
    session do
      let row ← query fun w => w.db.tasks.find r.taskId
      match persistWrite r row with
      | .error e => .raise e
      | .ok write => do
        if row.isSome then
          -- the `UPDATE` statement; it takes effect with the commit
          query fun _ => ()
        saveFinal r write
  else
    pure ()

def markDone (taskId : String) : Py Unit :=
  perform (.keys [(QueueKeys.callbackDone taskId, .set (.text "1") (some 86400))])

/-- The inline attempts; the attempt number is what is left of them, counted backwards. -/
def postCallback (node : TaskCompletionNode) (url : String) (payload : CallbackPayload) : Nat → Py Bool
  | 0 => pure false
  | left + 1 => do
    let sent ← exceptException
      (do
        perform (.post ⟨url, payload, payload.taskId, some (node.inlineRetries - left)⟩)
        if node.hasRedis then
          markDone payload.taskId
        pure true)
      fun _ => do
        if left ≠ 0 then
          query fun _ => ()
        pure false
    if sent then
      pure true
    else
      node.postCallback url payload left

def enqueueCallbackRetry (node : TaskCompletionNode) (event : CallbackEvent) : Py Unit :=
  if node.hasRedis then do
    let t ← time
    let delay : ℚ := min 600 (10 * 2 ^ (event.attempt - 1))
    perform (.callbackRetry (node.codec.dumps event) (t + delay) [])
  else
    pure ()

def triggerCallback (node : TaskCompletionNode) (r : Completion) : Py Unit :=
  if r.callbackUrl = "" then
    pure ()
  else do
    let t ← time
    if ← node.postCallback r.callbackUrl ⟨r.taskId, r.status, outputData r, ⌊t⌋⟩ node.inlineRetries then
      pure ()
    else
      node.enqueueCallbackRetry ⟨r.taskId, r.callbackUrl, r.status, outputData r, ⌊t⌋, 1⟩

def handleCompletion (node : TaskCompletionNode) (schedule : List Nat) (r : Completion) : Py Bool := do
  let _ ← Prog.gather Fault.interrupt schedule [node.persist r, node.triggerCallback r]
  pure true

def sendCallbackOnce (e : CallbackEvent) : Py Bool :=
  exceptException
    (do
      perform (.post ⟨e.callbackUrl, e.payload, e.taskId, some e.attempt⟩)
      pure true)
    fun _ => pure false

/-- Send a claimed event once; a failed one goes back with the next attempt or to the dead letters. -/
def deliverEvent (node : TaskCompletionNode) (member : String) (e : CallbackEvent) : Py Unit := do
  if ← sendCallbackOnce e then
    markDone e.taskId
  else if (e.attempt : Int) < node.maxDurableAttempts then
    node.enqueueCallbackRetry { e with attempt := e.attempt + 1 }
  else
    let t ← time
    perform (.callbacks (.deadLetter member t))
    perform (.callbacks (.keepDeadLetters 2592000))

/-- Claim a member by removing it; whoever finds it gone goes on. Returns whether it was processed. -/
def processMember (node : TaskCompletionNode) (member : String) : Py Bool := do
  let removed ← await (.callbacks (.claim member)) fun w =>
    .ok (w.redis.zscore QueueKeys.callbackRetry member).isSome
  if removed then
    match node.codec.loads member with
    | .invalid => pure false
    | .scalar typeName => .raise (.attributeError ("'" ++ typeName ++ "' object has no attribute 'get'"))
    | .event e => do
      node.deliverEvent member e
      pure true
  else
    pure false

def processMembers (node : TaskCompletionNode) : List String → Nat → Py Nat
  | [], processed => pure processed
  | member :: rest, processed => do
    let done ← node.processMember member
    node.processMembers rest (if done then processed + 1 else processed)

/-- The members due by now, from the earliest on; a negative count is no limit. -/
def dueMembers (batchSize : Int) (now : ℚ) (w : World) : List String :=
  let due := w.redis.zrangeTo QueueKeys.callbackRetry now
  if batchSize < 0 then due else due.take batchSize.toNat

def processDueCallbacks (node : TaskCompletionNode) (batchSize : Int := 50) : Py Nat :=
  if node.hasRedis then do
    let now ← time
    let events ← query (dueMembers batchSize now)
    node.processMembers events 0
  else
    pure 0

end TaskCompletionNode

structure CallbackAllowed (C : Command → Prop) (taskId : String) : Prop where
  read : C .read
  post : ∀ request, C (.post request)
  done : C (.keys [(QueueKeys.callbackDone taskId, .set (.text "1") (some 86400))])
  retry : ∀ member score, C (.callbackRetry member score [])

def Completion.Outbox (r : Completion) (outbox : List DbWrite) : Prop :=
  r.callbackUrl = "" ∧ outbox = [] ∨
    r.callbackUrl ≠ "" ∧ ∃ timestamp, outbox = [.insertOutbox
      ⟨r.taskId, r.tenantId, r.callbackUrl, r.status, TaskCompletionNode.outputData r, timestamp⟩]

theorem Completion.Outbox.tracks {r : Completion} {outbox : List DbWrite} (h : r.Outbox outbox) :
    ∀ o ∈ outbox, DbWrite.tracks o := by
  rcases h with ⟨_, rfl⟩ | ⟨_, timestamp, rfl⟩
  · exact fun o ho => absurd ho List.not_mem_nil
  · exact List.forall_mem_singleton.mpr rfl

structure ReportScope (I : World → Prop) (C : Command → Prop) (node : TaskCompletionNode)
    (r : Completion) : Prop extends CallbackAllowed C r.taskId where
  persist : node.hasDb = true → ∀ w write outbox, I w →
    TaskCompletionNode.persistWrite r (w.db.tasks.find r.taskId) = .ok write →
    r.Outbox outbox → C (.commit (write :: outbox))
  track : ∀ write : DbWrite, write.tracks → C (.commit [write])

structure ReportAllowed (I : World → Prop) (C : Command → Prop) (r : Completion) : Prop
    extends CallbackAllowed C r.taskId where
  persist : ∀ w write outbox, I w →
    TaskCompletionNode.persistWrite r (w.db.tasks.find r.taskId) = .ok write →
    (∀ o ∈ outbox, DbWrite.tracks o) → C (.commit (write :: outbox))
  track : ∀ write : DbWrite, write.tracks → C (.commit [write])

theorem ReportAllowed.scope {I : World → Prop} {C : Command → Prop} {r : Completion}
    (h : ReportAllowed I C r) (node : TaskCompletionNode) : ReportScope I C node r where
  toCallbackAllowed := h.toCallbackAllowed
  persist _ w write outbox hw hwr ho := h.persist w write outbox hw hwr ho.tracks
  track := h.track

namespace TaskCompletionNode

section Callback
variable {I : World → Prop} {C : Command → Prop} {r : Completion} (h : CallbackAllowed C r.taskId)
  (node : TaskCompletionNode)
include h

theorem issues_postCallback (url : String) {payload : CallbackPayload} (hpa : payload.taskId = r.taskId)
    (left : Nat) : Issues I C (fun _ => True) (node.postCallback url payload left) := by
  induction left with
  | zero => trivial
  | succ left ih =>
    have hp : Issues I C (fun _ => True) (query fun _ => ()) :=
      issues_query h.read fun _ _ => trivial
    refine Issues.bind (Q := fun _ => True) (issues_exceptException ?_ fun _ => ?_) fun sent _ => ?_
    · refine (issues_perform (h.post _)).bind fun _ _ => ?_
      split
      · unfold markDone
        rw [hpa]
        exact (issues_perform h.done).bind fun _ _ => trivial
      · trivial
    · split
      · exact hp.bind fun _ _ => trivial
      · trivial
    · split
      · trivial
      · exact ih

theorem issues_triggerCallback : Issues I C (fun _ => True) (node.triggerCallback r) := by
  unfold triggerCallback
  split
  · trivial
  · refine (issues_immediately (Q := fun _ => True) h.read fun _ _ => trivial).bind fun t _ => ?_
    refine (issues_postCallback h node _ rfl _).bind fun sent _ => ?_
    split
    · trivial
    · unfold enqueueCallbackRetry
      split
      · refine (issues_immediately (Q := fun _ => True) h.read fun _ _ => trivial).bind fun _ _ => ?_
        exact issues_perform (h.retry _ _)
      · trivial

end Callback

section Persist
variable {I : World → Prop} {C : Command → Prop} {r : Completion} {node : TaskCompletionNode} (hread : C .read)
include hread

theorem issues_outboxWrites : Issues I C r.Outbox (outboxWrites r) := by
  unfold outboxWrites
  split
  · exact .inl ⟨‹_›, rfl⟩
  · rename_i hu
    exact (issues_immediately (Q := fun _ => True) hread fun _ _ => trivial).bind fun t _ =>
      .inr ⟨hu, _, rfl⟩

theorem issues_saveFinal {write : DbWrite} (hc : ∀ outbox, r.Outbox outbox → C (.commit (write :: outbox)))
    (he : ∀ row, C (.commit [.insertTaskEvent row])) : Issues I C (fun _ => True) (saveFinal r write) := by
  refine (issues_outboxWrites hread).bind fun outbox ho => ?_
  refine (issues_commit (hc outbox ho)).bind fun _ _ => ?_
  exact issues_exceptException (issues_session hread (issues_commit (he _))) fun _ => trivial

theorem issues_persist (hc : node.hasDb = true → ∀ w write outbox, I w →
      persistWrite r (w.db.tasks.find r.taskId) = .ok write → r.Outbox outbox → C (.commit (write :: outbox)))
    (he : ∀ row, C (.commit [.insertTaskEvent row])) : Issues I C (fun _ => True) (node.persist r) := by
  unfold persist
  split
  · rename_i hdb
    refine issues_session hread ?_
    refine (issues_query (Q := fun row => ∃ w, I w ∧ w.db.tasks.find r.taskId = row) hread
      fun w hw => ⟨w, hw, rfl⟩).bind ?_
    rintro row ⟨w, hw, rfl⟩
    split
    · trivial
    · rename_i write hwr
      have hs : Issues I C (fun _ => True) (saveFinal r write) :=
        issues_saveFinal hread (fun outbox ho => hc hdb w write outbox hw hwr ho) he
      split
      · exact (issues_query (Q := fun _ => True) hread fun _ _ => trivial).bind fun _ _ => hs
      · exact hs
  · trivial

end Persist

section Footprint
variable {I : World → Prop} {C : Command → Prop} {r : Completion} {node : TaskCompletionNode}
  (h : ReportScope I C node r)
include h

theorem issues_handleCompletion_of_scope (schedule : List Nat) :
    Issues I C (fun _ => True) (node.handleCompletion schedule r) := by
  refine (Issues.gather (Q := fun _ => True) fun p hp => ?_).bind fun _ _ => trivial
  simp only [List.mem_cons, List.not_mem_nil, or_false] at hp
  rcases hp with rfl | rfl
  · exact issues_persist h.read h.persist fun _ => h.track _ rfl
  · exact issues_triggerCallback h.toCallbackAllowed node

end Footprint

section Processor
variable {I : World → Prop} {C : Command → Prop} (node : TaskCompletionNode) {member : String}

theorem issues_deliverEvent {e : CallbackEvent} (hread : C .read)
    (hp : C (.post ⟨e.callbackUrl, e.payload, e.taskId, some e.attempt⟩))
    (hdo : C (.keys [(QueueKeys.callbackDone e.taskId, .set (.text "1") (some 86400))]))
    (hr : ∀ score, C (.callbackRetry (node.codec.dumps { e with attempt := e.attempt + 1 }) score []))
    (hd : ∀ score, C (.callbacks (.deadLetter member score))) (hk : C (.callbacks (.keepDeadLetters 2592000))) :
    Issues I C (fun _ => True) (node.deliverEvent member e) := by
  refine Issues.bind (Q := fun _ => True) ?_ fun sent _ => ?_
  · exact issues_exceptException ((issues_perform hp).bind fun _ _ => trivial) fun _ => trivial
  · split
    · exact issues_perform hdo
    · split
      · unfold enqueueCallbackRetry
        split
        · exact (issues_immediately (Q := fun _ => True) hread fun _ _ => trivial).bind fun _ _ =>
            issues_perform (hr _)
        · trivial
      · refine (issues_immediately (Q := fun _ => True) hread fun _ _ => trivial).bind fun t _ => ?_
        exact (issues_perform (hd t)).bind fun _ _ => issues_perform hk

theorem issues_processMember (hc : C (.callbacks (.claim member)))
    (he : ∀ e, node.codec.loads member = .event e → Issues I C (fun _ => True) (node.deliverEvent member e)) :
    Issues I C (fun _ => True) (node.processMember member) := by
  refine Issues.bind (Q := fun _ => True) (issues_await hc fun _ _ _ _ => trivial) fun removed _ => ?_
  split
  · split
    · trivial
    · trivial
    · rename_i e hl
      exact (he e hl).bind fun _ _ => trivial
  · trivial

theorem issues_processDueCallbacks (hread : C .read) (hm : ∀ member, Issues I C (fun _ => True) (node.processMember member))
    (batchSize : Int) : Issues I C (fun _ => True) (node.processDueCallbacks batchSize) := by
  have hme (members : List String) (processed : Nat) :
      Issues I C (fun _ => True) (node.processMembers members processed) := by
    induction members generalizing processed with
    | nil => trivial
    | cons member rest ih => exact (hm member).bind fun done _ => ih _
  unfold processDueCallbacks
  split
  · refine (issues_immediately (Q := fun _ => True) hread fun _ _ => trivial).bind fun now _ => ?_
    exact (issues_query (Q := fun _ => True) hread fun _ _ => trivial).bind fun events _ => hme events 0
  · trivial

end Processor

theorem issues_handleCompletion {I : World → Prop} {C : Command → Prop} {r : Completion}
    (h : ReportAllowed I C r) (node : TaskCompletionNode) (schedule : List Nat) :
    Issues I C (fun _ => True) (node.handleCompletion schedule r) :=
  issues_handleCompletion_of_scope (h.scope node) schedule

end TaskCompletionNode

end AsyncScheduler
