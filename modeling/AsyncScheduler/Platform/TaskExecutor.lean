import AsyncScheduler.Platform.DagEngine
import AsyncScheduler.Platform.QueueManager
import AsyncScheduler.Common.Transaction

/-!
# Task executor and consumer

An execution holds a lock on its task while a background program renews it, drives the DAG engine,
and cleans up in any case.
-/

namespace AsyncScheduler

/-- An executor; Redis refuses a lock without a positive time to live. -/
structure TaskExecutor where
  id : Nat
  dag : Option DagEngine
  hasCallback : Bool
  lockTtlMs : Nat
  lockTtl_pos : 0 < lockTtlMs

structure ExecResult where
  status : ExecStatus
  error : Option String := none
  dagResult : Option DagContext := none
  deriving DecidableEq, Repr

/-- What an execution draws from its surroundings: its lock value, when the renewal runs
between its own commands, and the order of the steps of each wave. -/
structure ExecInputs where
  lockVal : Uuid
  renewals : List Bool
  schedules : List (List Nat)

namespace TaskExecutor

def lockSeconds (ex : TaskExecutor) : ℚ := ex.lockTtlMs / 1000

def renewLockLoop (ex : TaskExecutor) (taskId : String) (lockVal : Uuid) : Nat → Py Unit
  | 0 => pure ()
  | rounds + 1 => do
    query fun _ => ()
    let renewed ← await (.keys [(lockKey taskId, .renew (.text lockVal.text) ex.lockSeconds)]) fun w =>
      .ok (luaRenew (lockKey taskId) (.text lockVal.text) ex.lockSeconds w.redis).1
    if renewed then
      ex.renewLockLoop taskId lockVal rounds
    else
      pure ()

def body (ex : TaskExecutor) (schedules : List (List Nat)) (taskId : String)
    (dagDefinition : Option DagDefinition) (context : DispatchArg) : Py ExecResult :=
  exceptException
    (do
      let cancelled ← query fun w => w.redis.get (cancelKey taskId)
      if Blob.truthy cancelled then
        pure { status := .cancelled }
      else
        match ex.dag with
        | some engine => do
          mark (.dagStarted taskId dagDefinition)
          let ctx ← engine.execute schedules dagDefinition context
          pure { status := .completed, dagResult := some ctx }
        | none => pure { status := .completed })
    fun e => pure { status := .failed, error := some e.str }

/-- `renewal_task.cancel()` and `await renewal_task`: its own exception is raised here. -/
def stopRenewal : Py Unit → Py Unit
  | .ret _ => pure ()
  | .raise e => if e = .cancelledError then pure () else .raise e
  | .act _ _ => (query fun _ => ()).handle fun e =>
    if e = .cancelledError then pure () else .raise e

def releaseLock (taskId : String) (lockVal : Uuid) : Py Unit :=
  exceptException (perform (.keys [(lockKey taskId, .release (.text lockVal.text))])) fun _ => pure ()

/-- The variable `result` when the `finally` block starts. -/
def resultStatus : Except PyErr ExecResult → ExecStatus
  | .ok r => r.status
  | .error _ => .cancelled

def cleanup (ex : TaskExecutor) (taskId : String) (lockVal : Uuid) (renewal : Py Unit)
    (status : ExecStatus) : Py Unit := do
  memory (.discardActive ex.id taskId)
  stopRenewal renewal
  releaseLock taskId lockVal
  if ex.hasCallback then
    mark (.announced taskId status)
    exceptException (query fun _ => ()) fun _ => pure ()
  else
    pure ()

def execute (ex : TaskExecutor) (inputs : ExecInputs) (taskId : String)
    (dagDefinition : Option DagDefinition) (context : DispatchArg) : Py ExecResult := do
  let acquired ← await (.keys [(lockKey taskId, .setNx (.text inputs.lockVal.text) ex.lockSeconds)]) fun w =>
    .ok !w.redis.existsKey (lockKey taskId)
  if acquired then
    memory (.addActive ex.id taskId)
    let (outcome, renewal) ← Prog.withBackground inputs.renewals
      (ex.renewLockLoop taskId inputs.lockVal inputs.renewals.length)
      (ex.body inputs.schedules taskId dagDefinition context)
    ex.cleanup taskId inputs.lockVal renewal (resultStatus outcome)
    match outcome with
    | .ok result =>
      mark (.executed taskId result.status)
      pure result
    | .error e => .raise e
  else
    .raise (.runtimeError ("TaskExecutor: failed to acquire lock for task_id=" ++ taskId))

def idle : TaskExecutor := ⟨0, some ⟨fun _ _ => .ret ()⟩, false, 30000, by decide⟩

end TaskExecutor

structure TaskConsumer where
  id : Nat
  queue : QueueManager
  executor : TaskExecutor

namespace TaskConsumer

/-- Take one task and start its execution; the id of the started task is returned. A permit
of the semaphore is taken first and given back when there is nothing to start. -/
def tryDequeue (co : TaskConsumer) (capability : String) : Py (Option String) := do
  let acquired ← immediately (.memory (.acquirePermit co.id)) fun w => (0 < w.permits co.id : Bool)
  if acquired then
    let got ← (some <$> co.queue.dequeueReady capability).handle fun e => do
      memory (.releasePermit co.id)
      if e.isException then pure none else .raise e
    match got with
    | none => pure none
    | some none => do
      memory (.releasePermit co.id)
      pure none
    | some (some x) => pure (some x)
  else
    pure none

/-- The executor is called without a definition and with the dict of the task. -/
def executeTask (co : TaskConsumer) (inputs : ExecInputs) (taskId capability : String) : Py Unit :=
  (exceptException (co.executor.execute inputs taskId none (.taskData taskId capability)).void
    fun _ => pure ()).ensure fun _ => do
      memory (.releasePermit co.id)
      mark (.taskEnded capability taskId)

end TaskConsumer

/-- What an execution of a task issues once it holds the lock; the DAG starts, and the result
is `completed`, only when the cancel key was not set in some state. -/
structure ExecAllowed (I : World → Prop) (C : Command → Prop) (taskId : String)
    (dagDefinition : Option DagDefinition) : Prop where
  read : C .read
  memory : ∀ op, C (.memory op)
  renew : ∀ v seconds, C (.keys [(lockKey taskId, .renew v seconds)])
  release : ∀ v, C (.keys [(lockKey taskId, .release v)])
  announced : ∀ status, C (.mark (.announced taskId status))
  started : ∀ w, I w → Blob.truthy (w.redis.get (cancelKey taskId)) = false →
    C (.mark (.dagStarted taskId dagDefinition))
  executed : ∀ status, (status = .completed →
    ∃ w, I w ∧ Blob.truthy (w.redis.get (cancelKey taskId)) = false) → C (.mark (.executed taskId status))

/-- The same, with the lock commands of one execution. -/
structure ExecScope (I : World → Prop) (C : Command → Prop) (ex : TaskExecutor) (lockVal : Uuid)
    (taskId : String) (dagDefinition : Option DagDefinition) : Prop where
  read : C .read
  memory : ∀ op, C (.memory op)
  renew : C (.keys [(lockKey taskId, .renew (.text lockVal.text) ex.lockSeconds)])
  release : C (.keys [(lockKey taskId, .release (.text lockVal.text))])
  announced : ∀ status, C (.mark (.announced taskId status))
  started : ∀ w, I w → Blob.truthy (w.redis.get (cancelKey taskId)) = false →
    C (.mark (.dagStarted taskId dagDefinition))
  executed : ∀ status, (status = .completed →
    ∃ w, I w ∧ Blob.truthy (w.redis.get (cancelKey taskId)) = false) → C (.mark (.executed taskId status))

theorem ExecAllowed.scope {I : World → Prop} {C : Command → Prop} {taskId : String}
    {dagDefinition : Option DagDefinition} (h : ExecAllowed I C taskId dagDefinition) (ex : TaskExecutor)
    (lockVal : Uuid) : ExecScope I C ex lockVal taskId dagDefinition where
  read := h.read
  memory := h.memory
  renew := h.renew _ _
  release := h.release _
  announced := h.announced
  started := h.started
  executed := h.executed

section Footprint
variable {I : World → Prop} {C : Command → Prop}

theorem DagEngine.issues_execute (e : DagEngine) (schedules : List (List Nat))
    (dagDef : Option DagDefinition) (dispatch : DispatchArg) (hr : C .read) :
    Issues I C (fun _ => True) (e.execute schedules dagDef dispatch) := by
  unfold execute
  split
  · trivial
  · dsimp only
    split
    · trivial
    · refine (Issues.runLocal hr).bind fun ⟨outcome, ctx⟩ _ => ?_
      cases outcome <;> trivial

namespace TaskExecutor
variable {taskId : String} {dagDefinition : Option DagDefinition} {lockVal : Uuid} (ex : TaskExecutor)

theorem issues_renewLockLoop (hr : C .read)
    (hre : C (.keys [(lockKey taskId, .renew (.text lockVal.text) ex.lockSeconds)]))
    (rounds : Nat) : Issues I C (fun _ => True) (ex.renewLockLoop taskId lockVal rounds) := by
  induction rounds with
  | zero => trivial
  | succ rounds ih =>
    refine (issues_query (Q := fun _ => True) hr fun _ _ => trivial).bind fun _ _ => ?_
    refine (issues_await (Q := fun _ => True) hre fun _ _ _ _ => trivial).bind
      fun renewed _ => ?_
    split
    · exact ih
    · trivial

theorem issues_body (h : ExecScope I C ex lockVal taskId dagDefinition) (schedules : List (List Nat))
    (context : DispatchArg) :
    Issues I C (fun r => r.status = .completed →
        ∃ w, I w ∧ Blob.truthy (w.redis.get (cancelKey taskId)) = false)
      (ex.body schedules taskId dagDefinition context) := by
  refine issues_exceptException ?_ fun e => ?_
  · refine (issues_query (Q := fun v => ∃ w, I w ∧ v = w.redis.get (cancelKey taskId)) h.read
      fun w hw => ⟨w, hw, rfl⟩).bind ?_
    rintro _ ⟨w, hw, rfl⟩
    split
    · exact fun hne => absurd hne (by decide)
    · rename_i hc
      have hf : Blob.truthy (w.redis.get (cancelKey taskId)) = false := by simpa using hc
      split
      · refine (issues_immediately (Q := fun _ => True) (h.started w hw hf) fun _ _ => trivial).bind
          fun _ _ => ?_
        exact (DagEngine.issues_execute _ _ _ _ h.read).bind fun _ _ _ => ⟨w, hw, hf⟩
      · exact fun _ => ⟨w, hw, hf⟩
  · exact fun hne => absurd hne (by simp)

theorem issues_stopRenewal (hr : C .read) (renewal : Py Unit) :
    Issues I C (fun _ => True) (stopRenewal renewal) := by
  unfold stopRenewal
  split
  · trivial
  · split <;> trivial
  · refine (issues_query hr fun _ _ => trivial).handle fun e => ?_
    split <;> trivial

theorem issues_cleanup (hr : C .read) (hm : ∀ op, C (.memory op))
    (hre : C (.keys [(lockKey taskId, .release (.text lockVal.text))])) (renewal : Py Unit)
    {status : ExecStatus} (ha : C (.mark (.announced taskId status))) :
    Issues I C (fun _ => True) (ex.cleanup taskId lockVal renewal status) := by
  refine (issues_immediately (Q := fun _ => True) (hm _) fun _ _ => trivial).bind fun _ _ => ?_
  refine (issues_stopRenewal hr renewal).bind fun _ _ => ?_
  refine Issues.bind (Q := fun _ => True) ?_ fun _ _ => ?_
  · exact issues_exceptException (issues_perform hre) fun _ => trivial
  · split
    · refine (issues_immediately (Q := fun _ => True) ha fun _ _ => trivial).bind
        fun _ _ => ?_
      exact issues_exceptException (issues_query hr fun _ _ => trivial) fun _ => trivial
    · trivial

/-- An execution takes the lock before anything else. -/
theorem issues_execute_of_scope (inputs : ExecInputs) (context : DispatchArg)
    (ha : C (.keys [(lockKey taskId, .setNx (.text inputs.lockVal.text) ex.lockSeconds)]))
    (hh : ∀ w, I w → w.redis.existsKey (lockKey taskId) = false →
      ExecScope I C ex inputs.lockVal taskId dagDefinition) :
    Issues I C (fun _ => True) (ex.execute inputs taskId dagDefinition context) := by
  unfold execute
  refine Issues.bind (Q := fun acquired => acquired = true → ExecScope I C ex inputs.lockVal taskId dagDefinition)
    (issues_await ha ?_) fun acquired hal => ?_
  · intro w acquired hw hr hac
    cases hr
    exact hh w hw (by simpa using hac)
  · split
    · rename_i hacq
      have h := hal hacq
      refine (issues_immediately (Q := fun _ => True) (h.memory _) fun _ _ => trivial).bind fun _ _ => ?_
      refine (Issues.withBackground (ex.issues_renewLockLoop h.read h.renew _)
        (ex.issues_body h inputs.schedules context)).bind fun ⟨outcome, renewal⟩ ho => ?_
      dsimp only
      refine (ex.issues_cleanup h.read h.memory h.release renewal (h.announced _)).bind fun _ _ => ?_
      cases outcome with
      | ok result =>
        exact (issues_immediately (Q := fun _ => True) (h.executed _ ho.1) fun _ _ => trivial).bind
          fun _ _ => trivial
      | error e => trivial
    · trivial

theorem issues_execute (inputs : ExecInputs) (context : DispatchArg)
    (ha : ∀ v seconds, C (.keys [(lockKey taskId, .setNx v seconds)]))
    (hh : ∀ w, I w → w.redis.existsKey (lockKey taskId) = false → ExecAllowed I C taskId dagDefinition) :
    Issues I C (fun _ => True) (ex.execute inputs taskId dagDefinition context) :=
  ex.issues_execute_of_scope inputs context (ha _ _) fun w hw hf => (hh w hw hf).scope ex _

end TaskExecutor

end Footprint

end AsyncScheduler
