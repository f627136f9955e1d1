import AsyncScheduler.Common.Awaiting
import AsyncScheduler.Models.Callback
import AsyncScheduler.Models.Dag
import AsyncScheduler.Platform.Scripts

/-!
# The shared state and its atomic commands

Redis, the database and the in-process counters are one state.
-/

namespace AsyncScheduler

structure TaskRunRow where
  taskId : String
  runKey : String
  attempt : Int
  status : String
  deriving DecidableEq, Repr

structure DagRunRow where
  dagId : String
  runKey : String
  tenantId : String
  status : String
  deriving DecidableEq, Repr

structure TaskEventRow where
  taskId : String
  runKey : Option String
  eventType : String
  payload : List (String × String)
  deriving DecidableEq, Repr

structure Mysql where
  tasks : Table TaskRecord String TaskRecord.taskId
  taskRuns : List TaskRunRow
  dagRuns : List DagRunRow
  taskEvents : List TaskEventRow
  callbackOutbox : List CallbackOutboxRecord

inductive DbWrite where
  | insertTask (record : TaskInsert)
  /-- `UPDATE tasks SET status, output_data [, error_message] WHERE task_id`. -/
  | updateTask (taskId status : String) (outputData : Option String) (errorMessage : String)
  | setStatus (taskId : String) (status : TaskStatus)
  | bumpAttempts (taskIds : List String)
  | insertTaskRun (row : TaskRunRow)
  | insertDagRun (row : DagRunRow)
  | insertTaskEvent (row : TaskEventRow)
  | insertOutbox (row : CallbackOutboxRow)
  /-- `UPDATE callback_outbox SET ... WHERE id`, with the columns that changed. -/
  | updateOutbox (id : Nat) (update : OutboxUpdate)
  deriving DecidableEq, Repr

namespace Mysql

def empty : Mysql := ⟨∅, [], [], [], []⟩

def updateWhere (db : Mysql) (p : TaskRecord → Bool) (f : TaskRecord → TaskRecord)
    (hf : ∀ r, (f r).taskId = r.taskId) : Mysql :=
  { db with
    tasks := db.tasks.modify (fun r => if p r then f r else r) (by
      intro r
      split
      · exact hf r
      · rfl) }

def tooLong (columns : List (String × Nat × String)) : Option PyErr :=
  (columns.find? fun (_, width, text) => width < text.length).map
    fun (name, _, _) => .dataError ("Data too long for column '" ++ name ++ "'")

/-- `AUTO_INCREMENT`: larger than every id so far. -/
def nextOutboxId (db : Mysql) : Nat := (db.callbackOutbox.map (·.id)).foldr max 0 + 1

def orElse (bad : Option PyErr) (db : Mysql) : Except PyErr Mysql :=
  match bad with
  | some e => .error e
  | none => .ok db

def write (now : ℚ) (db : Mysql) : DbWrite → Except PyErr Mysql
  | .insertTask r =>
    match r.toRow now with
    | .error e => .error e
    | .ok row =>
      match db.tasks.insert row with
      | none => .error (.integrityError ("Duplicate entry '" ++ row.taskId ++ "' for key 'tasks.PRIMARY'"))
      | some tasks => .ok { db with tasks }
  | .updateTask taskId status outputData errorMessage =>
    match TaskStatus.ofText status with
    | none => .error (.dataError "Data truncated for column 'status'")
    | some status => .ok (db.updateWhere (·.taskId = taskId)
        (fun r => { r with
          status, outputData, updatedAt := now
          errorMessage := if errorMessage = "" then r.errorMessage else some errorMessage })
        fun _ => rfl)
  | .setStatus taskId status => .ok (db.updateWhere (·.taskId = taskId)
      (fun r => { r with status, updatedAt := now }) fun _ => rfl)
  | .bumpAttempts taskIds => .ok (db.updateWhere (·.taskId ∈ taskIds)
      (fun r => { r with attempt := r.attempt + 1, updatedAt := now }) fun _ => rfl)
  | .insertTaskRun row =>
    orElse (tooLong [("task_id", 128, row.taskId), ("run_key", 128, row.runKey), ("status", 32, row.status)])
      { db with taskRuns := db.taskRuns ++ [row] }
  | .insertDagRun row =>
    orElse (tooLong [("dag_id", 128, row.dagId), ("run_key", 128, row.runKey),
        ("tenant_id", 64, row.tenantId), ("status", 32, row.status)])
      { db with dagRuns := db.dagRuns ++ [row] }
  | .insertTaskEvent row =>
    orElse (tooLong [("task_id", 64, row.taskId), ("event_type", 64, row.eventType)])
      { db with taskEvents := db.taskEvents ++ [row] }
  | .insertOutbox row =>
    orElse (tooLong [("task_id", 64, row.taskId), ("tenant_id", 64, row.tenantId),
        ("callback_url", 512, row.callbackUrl)])
      { db with callbackOutbox := db.callbackOutbox ++ [{ row with id := db.nextOutboxId }] }
  | .updateOutbox id u => .ok { db with
      callbackOutbox := db.callbackOutbox.map fun row => if row.id = id then row.update u else row }

def commit (now : ℚ) (db : Mysql) : List DbWrite → Except PyErr Mysql
  | [] => .ok db
  | x :: xs =>
    match db.write now x with
    | .error e => .error e
    | .ok db' => db'.commit now xs

end Mysql

inductive KeyOp where
  | set (v : Blob) (ex : Option ℚ)
  | setNx (v : Blob) (ex : ℚ)
  | renew (v : Blob) (seconds : ℚ)
  | release (v : Blob)
  | del
  deriving DecidableEq

def KeyOp.exec (k : String) (r : Store) : KeyOp → Store
  | .set v ex => r.set k v ex
  | .setNx v ex => (r.setNx k v ex).2
  | .renew v seconds => (luaRenew k v seconds r).2
  | .release v => (luaLockRelease k v r).2
  | .del => r.del k

inductive QueueOp where
  | enqueue (capability taskId : String) (score : ℚ) (defaultDepth ttl : Int)
  | dequeueReady (capability : String) (defaultMc nowMs scanLimit : Int)
  | cancel (capability taskId : String)
  | complete (capability taskId counter : String)
  | releaseRunning (capability taskId : String)
  | removeStale (capability : String) (taskIds : List String)
  | register (capability : String)
  -- The `ZADD` of the rebuild
  | restore (capability taskId : String) (score : ℚ)
  deriving DecidableEq

def QueueOp.exec (r : Store) : QueueOp → Store
  | .enqueue c x score depth ttl => (luaEnqueue c x score depth ttl r).2
  | .dequeueReady c mc nowMs limit => (luaDequeueReady c mc nowMs limit r).2
  | .cancel c x => (luaCancel c x r).2
  | .complete c x counter => luaComplete c x counter r
  | .releaseRunning c x => r.zrem (QueueKeys.running c) x
  | .removeStale c xs => r.zremAll (QueueKeys.running c) xs
  | .register c => r.sadd capabilitiesKey c
  | .restore c x score => r.zadd (QueueKeys.pending c) score x

inductive BreakerOp where
  | recordFailure (capability : String) (threshold openTtl : Int)
  | recordSuccess (capability : String)
  | checkState (capability : String) (halfOpenMax : Int)
  deriving DecidableEq

def BreakerOp.exec (r : Store) : BreakerOp → Store
  | .recordFailure c threshold openTtl => (luaRecordFailure c threshold openTtl r).2
  | .recordSuccess c => (luaRecordSuccess c r).2
  | .checkState c halfOpenMax => (luaCheckState c halfOpenMax r).2

inductive CallbackOp where
  | claim (member : String)
  | deadLetter (member : String) (score : ℚ)
  -- `EXPIRE` on the dead-letter set
  | keepDeadLetters (seconds : ℚ)
  deriving DecidableEq

def CallbackOp.exec (r : Store) : CallbackOp → Store
  | .claim m => r.zrem QueueKeys.callbackRetry m
  | .deadLetter m score => r.zadd QueueKeys.callbackDlq score m
  | .keepDeadLetters seconds => r.zexpireIn QueueKeys.callbackDlq seconds

inductive ExecStatus where
  | unknown | completed | failed | cancelled
  deriving DecidableEq, Repr

/-- Points of the source that a property refers to; they change nothing. -/
inductive Mark where
  -- `TaskExecutor.execute` calls the DAG engine
  | dagStarted (taskId : String) (definition : Option DagDefinition)
  -- `TaskExecutor.execute` returns a result
  | executed (taskId : String) (status : ExecStatus)
  -- The completion callback of the executor is invoked
  | announced (taskId : String) (status : ExecStatus)
  -- `TaskConsumer._execute_task` ends
  | taskEnded (capability taskId : String)
  deriving DecidableEq

inductive MemoryOp where
  | addActive (executor : Nat) (taskId : String)
  | discardActive (executor : Nat) (taskId : String)
  -- Take a permit of a consumer's semaphore if one is free
  | acquirePermit (consumer : Nat)
  | releasePermit (consumer : Nat)
  deriving DecidableEq

inductive Command where
  | read
  | keys (ops : List (String × KeyOp))
  | queue (op : QueueOp)
  | breaker (op : BreakerOp)
  /-- `ZADD` to the callback retry set, with the writes of the same pipeline. -/
  | callbackRetry (member : String) (score : ℚ) (ops : List (String × KeyOp))
  | callbacks (op : CallbackOp)
  -- An HTTP request; its success is the fault it is given
  | post (request : CallbackPost)
  | commit (writes : List DbWrite)
  | memory (op : MemoryOp)
  | mark (m : Mark)
  -- Time passes up to an instant
  | advance (t : ℚ)
  deriving DecidableEq

structure World where
  redis : Store
  db : Mysql
  activeTasks : Nat → List String
  permits : Nat → Int

namespace World

def empty : World := ⟨Redis.empty, Mysql.empty, fun _ => [], fun _ => 8⟩

def onRedis (w : World) (f : Store → Store) : World := { w with redis := f w.redis }

def runKeys (r : Store) (ops : List (String × KeyOp)) : Store :=
  ops.foldl (fun r (k, op) => op.exec k r) r

def exec (w : World) : Command → World
  | .read => w
  | .keys ops => w.onRedis (runKeys · ops)
  | .queue op => w.onRedis op.exec
  | .breaker op => w.onRedis op.exec
  | .callbackRetry member score ops =>
    w.onRedis fun r => runKeys (r.zadd QueueKeys.callbackRetry score member) ops
  | .callbacks op => w.onRedis op.exec
  | .post _ => w
  | .commit writes =>
    match w.db.commit w.redis.clock writes with
    | .ok db => { w with db }
    | .error _ => w
  | .memory (.addActive n x) =>
    { w with activeTasks := Function.update w.activeTasks n (x :: (w.activeTasks n).erase x) }
  | .memory (.discardActive n x) =>
    { w with activeTasks := Function.update w.activeTasks n ((w.activeTasks n).erase x) }
  | .memory (.acquirePermit n) =>
    if 0 < w.permits n then { w with permits := Function.update w.permits n (w.permits n - 1) } else w
  | .memory (.releasePermit n) => { w with permits := Function.update w.permits n (w.permits n + 1) }
  | .mark _ => w
  | .advance t => if w.redis.clock < t then w.onRedis (·.advance t) else w

end World

def Command.awaited : Command → Bool
  | .memory _ | .mark _ | .advance _ => false
  | _ => true

def Command.apply (c : Command) (i : Fault) (w : World) : World :=
  if i.applied || !c.awaited then w.exec c else w

abbrev Py := Prog Command Fault World PyErr

section Actions
variable {α : Type}

def await (c : Command) (reply : World → Except PyErr α) : Py α :=
  .act c fun i w =>
    match i with
    | .ok =>
      match reply w with
      | .ok a => .ret a
      | .error e => .raise e
    | .fail _ => .raise connectionLost
    | .cancel _ => .raise .cancelledError

def query (f : World → α) : Py α := await .read fun w => .ok (f w)

def perform (c : Command) : Py Unit := await c fun _ => .ok ()

def commit (writes : List DbWrite) : Py Unit :=
  await (.commit writes) fun w =>
    match w.db.commit w.redis.clock writes with
    | .ok _ => .ok ()
    | .error e => .error e

def immediately (c : Command) (f : World → α) : Py α := .act c fun _ w => .ret (f w)

def time : Py ℚ := immediately .read fun w => w.redis.clock

def mark (m : Mark) : Py Unit := immediately (.mark m) fun _ => ()

def memory (op : MemoryOp) : Py Unit := immediately (.memory op) fun _ => ()

/-- `async with self._db() as session`: commit on success, roll back on an
exception, close in any case. -/
def session (body : Py α) : Py α :=
  let committed : Py α := do
    let a ← body
    query fun _ => ()
    pure a
  (exceptException committed fun e => do
    query fun _ => ()
    .raise e).ensure fun _ => query fun _ => ()

end Actions

theorem World.foldl_onRedis {α : Type} (f : Store → α → Store) (l : List α) (w : World) :
    l.foldl (fun w a => w.onRedis (f · a)) w = w.onRedis (l.foldl f) := by
  induction l generalizing w with
  | nil => rfl
  | cons a l ih => exact ih _

section Undisturbed
variable {α : Type} (w : World)

theorem apply_ok (c : Command) : c.apply .ok w = w.exec c := rfl

@[simp] theorem runWith_await (c : Command) (reply : World → Except PyErr α) :
    (await c reply).runWith Command.apply .ok w = (reply w, w.exec c) := runWith_awaiting Command.apply c reply w

@[simp] theorem runWith_query (f : World → α) :
    (query f).runWith Command.apply .ok w = (.ok (f w), w) := runWith_await ..

@[simp] theorem runWith_perform (c : Command) :
    (perform c).runWith Command.apply .ok w = (.ok (), w.exec c) := runWith_await ..

@[simp] theorem runWith_immediately (c : Command) (f : World → α) :
    (immediately c f).runWith Command.apply .ok w = (.ok (f w), w.exec c) := rfl

@[simp] theorem runWith_time : time.runWith Command.apply .ok w = (.ok w.redis.clock, w) := rfl

theorem runWith_exceptException (p : Py α) (h : PyErr → Py α) :
    (exceptException p h).runWith Command.apply .ok w =
      match p.runWith Command.apply .ok w with
      | (.ok a, w') => (.ok a, w')
      | (.error e, w') => if e.isException then (h e).runWith Command.apply .ok w' else (.error e, w') := by
  unfold exceptException
  rw [Prog.runWith_handle]
  obtain ⟨outcome, w'⟩ := p.runWith Command.apply .ok w
  cases outcome with
  | ok a => rfl
  | error e => exact apply_ite (Prog.runWith Command.apply .ok · w') _ _ _

@[simp] theorem runWith_session (body : Py α) :
    (session body).runWith Command.apply .ok w = body.runWith Command.apply .ok w := by
  unfold session
  rw [Prog.runWith_ensure, runWith_exceptException, Prog.bind_eq, Prog.runWith_bind]
  obtain ⟨outcome, w'⟩ := body.runWith Command.apply .ok w
  cases outcome with
  | ok a => rfl
  | error e => by_cases he : e.isException = true <;> simp [he, Prog.runWith_bind]

end Undisturbed

section Given
variable (faults : List Fault) (w : World) (c : Command)

theorem runOn_perform : (perform c).runOn Command.apply .ok faults w = ⟨match faults.headD .ok with
        | .ok => .ok ()
        | .fail _ => .error connectionLost
        | .cancel _ => .error .cancelledError,
        c.apply (faults.headD .ok) w, faults.tail, [⟨c, faults.headD .ok, w⟩]⟩ := by
  rw [perform, await, Prog.runOn]
  cases faults.headD .ok <;> rfl

theorem runOn_exceptException {α : Type} (p : Py α) (h : PyErr → Py α) :
    (exceptException p h).runOn Command.apply .ok faults w =
      match p.runOn Command.apply .ok faults w with
      | ⟨.ok a, w', rest, steps⟩ => ⟨.ok a, w', rest, steps⟩
      | ⟨.error e, w', rest, steps⟩ =>
        if e.isException then ((h e).runOn Command.apply .ok rest w').after steps else ⟨.error e, w', rest, steps⟩ := by
  unfold exceptException
  rw [Prog.runOn_handle]
  obtain ⟨outcome, w', rest, steps⟩ := p.runOn Command.apply .ok faults w
  cases outcome with
  | ok a => rfl
  | error e =>
    dsimp only
    split
    · rfl
    · simp [Prog.runOn, Prog.Ran.after]

end Given

section Paths
variable {α : Type} (w : World) (c : Command)

theorem path_await {reply : World → Except PyErr α} {a : α} (h : reply w = .ok a) :
    Path Command.apply (await c reply) w [⟨c, .ok, w⟩] (.ret a) (w.exec c) := by
  refine .cons Fault.ok ?_
  simp only [h]
  exact .refl _ _

theorem path_query (f : World → α) : Path Command.apply (query f) w [⟨.read, .ok, w⟩] (.ret (f w)) w :=
  path_await w .read rfl

theorem path_perform : Path Command.apply (perform c) w [⟨c, .ok, w⟩] (.ret ()) (w.exec c) := path_await w c rfl

theorem path_immediately (f : World → α) :
    Path Command.apply (immediately c f) w [⟨c, .ok, w⟩] (.ret (f w)) (w.exec c) :=
  .cons Fault.ok (.refl _ _)

end Paths

section Footprint
variable {I : World → Prop} {C : Command → Prop} {α : Type} {Q : α → Prop}

theorem issues_await {c : Command} {reply : World → Except PyErr α} (hc : C c)
    (hQ : ∀ w a, I w → reply w = .ok a → Q a) : Issues I C Q (await c reply) :=
  issues_awaiting hc hQ

theorem issues_query {f : World → α} (hr : C .read) (hQ : ∀ w, I w → Q (f w)) : Issues I C Q (query f) :=
  issues_await hr fun w a hw ha => by
    cases ha
    exact hQ w hw

theorem issues_perform {c : Command} (hc : C c) : Issues I C (fun _ => True) (perform c) :=
  issues_await hc fun _ _ _ _ => trivial

theorem issues_immediately {c : Command} {f : World → α} (hc : C c) (hQ : ∀ w, I w → Q (f w)) :
    Issues I C Q (immediately c f) := ⟨hc, fun _ w hw => hQ w hw⟩

theorem issues_exceptException {p : Py α} {h : PyErr → Py α} (hp : Issues I C Q p)
    (hh : ∀ e, Issues I C Q (h e)) : Issues I C Q (exceptException p h) := by
  refine hp.handle fun e => ?_
  split
  · exact hh e
  · trivial

theorem issues_session {body : Py α} (hr : C .read) (hb : Issues I C Q body) : Issues I C Q (session body) := by
  have hp : Issues I C (fun _ => True) (query fun _ => ()) := issues_query hr fun _ _ => trivial
  refine Issues.ensure (issues_exceptException ?_ fun e => ?_) (fun _ _ => hp) fun _ => hp
  · exact hb.bind fun a ha => hp.bind fun _ _ => ha
  · exact hp.bind fun _ _ => trivial

end Footprint

section Follow
variable {L α : Type} {A : Transition Command Fault World → Prop}
  {δ : L → Transition Command Fault World → Option L} {Q : L → Except PyErr α → Prop} {l : L}

theorem follows_await {c : Command} {reply : World → Except PyErr α}
    (h : ∀ i w, A ⟨c, i, w⟩ → ∃ l', δ l ⟨c, i, w⟩ = some l' ∧ Q l' (i.answer (reply w))) :
    Follows A δ Q (await c reply) l := follows_awaiting h

theorem follows_immediately {c : Command} {f : World → α}
    (h : ∀ i w, A ⟨c, i, w⟩ → ∃ l', δ l ⟨c, i, w⟩ = some l' ∧ Q l' (.ok (f w))) :
    Follows A δ Q (immediately c f) l := h

theorem follows_session {body : Py α} (hr : ∀ l i w, A ⟨.read, i, w⟩ → ∃ l', δ l ⟨.read, i, w⟩ = some l')
    (hb : Follows A δ (fun _ _ => True) body l) : Follows A δ (fun _ _ => True) (session body) l := by
  have hp (l : L) : Follows A δ (fun _ _ => True) (query fun _ => ()) l := follows_await fun i w hA => by
    obtain ⟨l', hl'⟩ := hr l i w hA
    exact ⟨l', hl', trivial⟩
  refine Follows.ensure (Q := fun _ _ => True) (follows_exceptException (Q := fun _ _ => True) ?_ (fun _ _ h => h) ?_ fun _ _ _ h => h)
    fun l _ _ => hp l
  · exact hb.bind (fun l _ _ => (hp l).bind (fun _ _ _ => trivial) fun _ _ _ => trivial) fun _ _ _ => trivial
  · exact fun l e _ _ => (hp l).bind (fun _ _ _ => trivial) fun _ _ _ => trivial

end Follow

section Steps
variable {α β : Type} {steps : List (Transition Command Fault World)} {q : Py β}

theorem steps_await_bind {c : Command} {reply : World → Except PyErr α} {f : α → Py β}
    (h : Steps ((await c reply).bind f) steps q) :
    steps = [] ∨ ∃ i w rest, steps = ⟨c, i, w⟩ :: rest ∧
      (rest = [] ∨ ∃ a, i = .ok ∧ reply w = .ok a ∧ Steps (f a) rest q) := by
  cases h with
  | refl => exact .inl rfl
  | cons i w h =>
    refine .inr ⟨i, w, _, rfl, ?_⟩
    cases i with
    | ok =>
      dsimp only at h
      split at h
      · exact .inr ⟨_, rfl, ‹_›, h⟩
      · exact .inl h.of_raise
    | fail _ | cancel _ => exact .inl h.of_raise

theorem steps_await_ret {c : Command} {reply : World → Except PyErr β} {b : β}
    (h : Steps (await c reply) steps (.ret b)) : ∃ w, steps = [⟨c, .ok, w⟩] ∧ reply w = .ok b := by
  cases h with
  | cons i w h =>
    cases i with
    | ok =>
      refine ⟨w, ?_⟩
      dsimp only at h
      split at h
      · rename_i a hr
        cases h
        exact ⟨rfl, hr⟩
      · cases h
    | fail _ => cases h
    | cancel _ => cases h

theorem steps_time_bind {f : ℚ → Py β} (h : Steps (time.bind f) steps q) :
    steps = [] ∨ ∃ i w rest, steps = ⟨.read, i, w⟩ :: rest ∧ Steps (f w.redis.clock) rest q := by
  cases h with
  | refl => exact .inl rfl
  | cons i w h => exact .inr ⟨i, w, _, rfl, h⟩

end Steps

section Along
variable {J : World → Prop} {α : Type} {Q : α → World → Prop} {w : World}

@[simp] theorem apply_read (i : Fault) (w : World) : Command.read.apply i w = w := by
  unfold Command.apply
  split <;> rfl

theorem along_query {f : World → α} (hw : J w) (hQ : Q (f w) w) : Along Command.apply J Q (query f) w := by
  refine ⟨hw, fun i => ?_⟩
  rw [apply_read]
  cases i with
  | ok => exact ⟨hw, hQ⟩
  | fail _ => exact hw
  | cancel _ => exact hw

theorem along_time (hw : J w) : Along Command.apply J (fun _ _ => True) time w := by
  refine ⟨hw, fun i => ?_⟩
  rw [apply_read]
  exact ⟨hw, trivial⟩

theorem along_exceptException {p : Py α} {h : PyErr → Py α} (hp : Along Command.apply J Q p w)
    (hh : ∀ e w', J w' → Along Command.apply J Q (h e) w') : Along Command.apply J Q (exceptException p h) w := by
  refine hp.handle fun e w' hw' => ?_
  split
  · exact hh e w' hw'
  · exact hw'

theorem along_session {body : Py α} (hb : Along Command.apply J Q body w) :
    Along Command.apply J Q (session body) w := by
  have hp (w' : World) (hw' : J w') : Along Command.apply J (fun _ _ => True) (query fun _ => ()) w' :=
    along_query hw' trivial
  refine Along.ensure (along_exceptException ?_ fun e w' hw' => ?_) ?_ fun e w' hw' => hp w' hw'
  · exact hb.bind fun a w' hw' ha =>
      (along_query (Q := fun _ => Q a) hw' ha).bind fun _ _ h ha' => ⟨h, ha'⟩
  · exact (hp w' hw').bind fun _ _ h _ => h
  · exact fun a w' hw' ha => along_query hw' ha

end Along

def toMs (t : ℚ) : Int := ⌊t * 1000⌋

end AsyncScheduler
