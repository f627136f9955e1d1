import AsyncScheduler.Platform.World

/-!
# Queue manager

The operations of the priority queue as programs over the scripts, with the circuit breaker in front
of enqueue and dequeue.
-/

namespace AsyncScheduler

structure CircuitBreaker where
  failureThreshold : Int := 10
  openDurationSeconds : Int := 60
  halfOpenMax : Int := 1
  deriving DecidableEq, Repr

namespace CircuitBreaker

def recordFailure (cb : CircuitBreaker) (capability : String) : Py BreakerState :=
  await (.breaker (.recordFailure capability cb.failureThreshold cb.openDurationSeconds)) fun w =>
    (luaRecordFailure capability cb.failureThreshold cb.openDurationSeconds w.redis).1

def recordSuccess (_ : CircuitBreaker) (capability : String) : Py BreakerState :=
  await (.breaker (.recordSuccess capability)) fun w => .ok (luaRecordSuccess capability w.redis).1

def getState (cb : CircuitBreaker) (capability : String) : Py BreakerState :=
  await (.breaker (.checkState capability cb.halfOpenMax)) fun w =>
    (luaCheckState capability cb.halfOpenMax w.redis).1

def allowRequest (cb : CircuitBreaker) (capability : String) : Py Bool := do
  let state ← cb.getState capability
  pure (state = .closed ∨ state = .halfOpen)

end CircuitBreaker

structure QueueManager where
  cb : Option CircuitBreaker := none
  defaultDepth : Int := 1000
  defaultMc : Int := 8
  ttl : Int := 3600
  scanLimit : Int := 50
  deriving DecidableEq, Repr

structure EnqueueResult where
  accepted : Bool
  queuePosition : Int
  pendingCount : Int
  deriving DecidableEq, Repr

namespace QueueManager
open QueueKeys

def refused (q : QueueManager) (capability : String) : Py Bool :=
  match q.cb with
  | none => pure false
  | some cb => do
    let allowed ← cb.allowRequest capability
    pure !allowed

def score (priority : Int) (executeAfterMs : ℚ) (nowMs : Int) : ℚ :=
  priority * 10000000000000 + (if (nowMs : ℚ) < executeAfterMs then executeAfterMs else nowMs)

def enqueue (q : QueueManager) (capability taskId : String) (priority : Int := 3)
    (executeAfterMs : ℚ := 0) : Py EnqueueResult := do
  if ← q.refused capability then
    .raise (.runtimeError ("Circuit breaker open for capability '" ++ capability ++ "' — enqueue rejected"))
  else
    let t ← time
    let sc := score priority executeAfterMs (toMs t)
    let (pos, cnt) ← await (.queue (.enqueue capability taskId sc q.defaultDepth q.ttl)) fun w =>
      .ok (luaEnqueue capability taskId sc q.defaultDepth q.ttl w.redis).1
    if pos = -1 then
      pure ⟨false, -1, cnt⟩
    else
      perform (.queue (.register capability))
      pure ⟨true, pos, cnt⟩

def dequeueReady (q : QueueManager) (capability : String) : Py (Option String) := do
  if ← q.refused capability then
    pure none
  else
    let t ← time
    await (.queue (.dequeueReady capability q.defaultMc (toMs t) q.scanLimit)) fun w =>
      .ok (luaDequeueReady capability q.defaultMc (toMs t) q.scanLimit w.redis).1

def cancel (_ : QueueManager) (capability taskId : String) : Py Bool :=
  await (.queue (.cancel capability taskId)) fun w => .ok (luaCancel capability taskId w.redis).1

def complete (q : QueueManager) (capability taskId : String) : Py Bool := do
  perform (.queue (.complete capability taskId "total_completed"))
  match q.cb with
  | none => pure true
  | some cb => do
    let _ ← cb.recordSuccess capability
    pure true

def fail (q : QueueManager) (capability taskId : String) : Py Bool := do
  perform (.queue (.complete capability taskId "total_failed"))
  match q.cb with
  | none => pure true
  | some cb => do
    let _ ← cb.recordFailure capability
    pure true

def releaseRunningSlot (_ : QueueManager) (capability taskId : String) : Py Bool := do
  perform (.queue (.releaseRunning capability taskId))
  pure true

def cleanupStaleRunning (_ : QueueManager) (capability : String) (maxAgeSeconds : ℚ := 300) : Py Nat := do
  let t ← time
  let stale ← query fun w => w.redis.zrangeTo (running capability) (toMs (t - maxAgeSeconds))
  if stale = [] then
    pure 0
  else
    perform (.queue (.removeStale capability stale))
    pure stale.length

end QueueManager

/-- Commands that touch neither a task nor a queue entry. -/
structure Ambient (C : Command → Prop) : Prop where
  read : C .read
  breaker : ∀ op, C (.breaker op)
  register : ∀ c, C (.queue (.register c))

namespace QueueManager

section Footprint
variable {I : World → Prop} {C : Command → Prop} (hC : Ambient C) (q : QueueManager)
include hC

variable {c x : String}

theorem issues_time : Issues I C (fun _ => True) time := issues_immediately hC.read fun _ _ => trivial

theorem issues_refused (c : String) : Issues I C (fun _ => True) (q.refused c) := by
  unfold refused
  split
  · trivial
  · refine Issues.bind (Q := fun _ => True) ?_ fun _ _ => trivial
    exact (issues_await (hC.breaker _) fun _ _ _ _ => trivial).bind fun _ _ => trivial

theorem issues_enqueue (priority : Int) (executeAfterMs : ℚ)
    (he : ∀ sc, C (.queue (.enqueue c x sc q.defaultDepth q.ttl))) :
    Issues I C (fun _ => True) (q.enqueue c x priority executeAfterMs) := by
  refine (issues_refused hC q c).bind fun refused _ => ?_
  split
  · trivial
  · refine (issues_time hC).bind fun t _ => ?_
    refine (issues_await (he _) fun _ _ _ _ => trivial).bind fun ⟨pos, cnt⟩ _ => ?_
    dsimp only
    split
    · trivial
    · exact (issues_perform (hC.register c)).bind fun _ _ => trivial

theorem issues_dequeueReady
    (hd : ∀ w, I w → C (.queue (.dequeueReady c q.defaultMc (toMs w.redis.clock) q.scanLimit))) :
    Issues I C (fun _ => True) (q.dequeueReady c) := by
  refine (issues_refused hC q c).bind fun refused _ => ?_
  split
  · trivial
  · refine (issues_immediately (Q := fun t => ∃ w, I w ∧ w.redis.clock = t) hC.read
      fun w hw => ⟨w, hw, rfl⟩).bind ?_
    rintro t ⟨w, hw, rfl⟩
    exact issues_await (hd w hw) fun _ _ _ _ => trivial

theorem issues_complete (hc : ∀ counter, C (.queue (.complete c x counter))) :
    Issues I C (fun _ => True) (q.complete c x) := by
  refine (issues_perform (hc _)).bind fun _ _ => ?_
  split
  · trivial
  · exact (issues_await (hC.breaker _) fun _ _ _ _ => trivial).bind fun _ _ => trivial

theorem issues_fail (hc : ∀ counter, C (.queue (.complete c x counter))) :
    Issues I C (fun _ => True) (q.fail c x) := by
  refine (issues_perform (hc _)).bind fun _ _ => ?_
  split
  · trivial
  · exact (issues_await (hC.breaker _) fun _ _ _ _ => trivial).bind fun _ _ => trivial

theorem issues_cleanupStaleRunning (maxAge : ℚ) (hr : ∀ xs, C (.queue (.removeStale c xs))) :
    Issues I C (fun _ => True) (q.cleanupStaleRunning c maxAge) := by
  refine (issues_time hC).bind fun t _ => ?_
  refine (issues_query (Q := fun _ => True) hC.read fun _ _ => trivial).bind fun stale _ => ?_
  split
  · trivial
  · exact (issues_perform (hr _)).bind fun _ _ => trivial

end Footprint

end QueueManager

inductive QueueCall where
  | enqueue (q : QueueManager) (capability taskId : String) (priority : Int) (executeAfterMs : ℚ)
  | dequeueReady (q : QueueManager) (capability : String)
  | cancel (q : QueueManager) (capability taskId : String)
  | complete (q : QueueManager) (capability taskId : String)
  | fail (q : QueueManager) (capability taskId : String)
  | releaseRunningSlot (q : QueueManager) (capability taskId : String)
  | cleanupStaleRunning (q : QueueManager) (capability : String) (maxAgeSeconds : ℚ)

/-- What the queue manager can issue: everything but the `ZADD` of the rebuild. -/
def QueueOp.isManagerOp : QueueOp → Bool
  | .restore _ _ _ => false
  | _ => true

namespace QueueCall

def program : QueueCall → Py Unit
  | .enqueue q c x priority executeAfterMs => (q.enqueue c x priority executeAfterMs).void
  | .dequeueReady q c => (q.dequeueReady c).void
  | .cancel q c x => (q.cancel c x).void
  | .complete q c x => (q.complete c x).void
  | .fail q c x => (q.fail c x).void
  | .releaseRunningSlot q c x => (q.releaseRunningSlot c x).void
  | .cleanupStaleRunning q c maxAge => (q.cleanupStaleRunning c maxAge).void

theorem issues {I : World → Prop} {C : Command → Prop} (hC : Ambient C)
    (hq : ∀ op : QueueOp, op.isManagerOp → C (.queue op)) (call : QueueCall) :
    Issues I C (fun _ => True) call.program := by
  cases call with
  | enqueue q c x priority after =>
    exact (q.issues_enqueue hC priority after fun _ => hq _ rfl).void
  | dequeueReady q c => exact (q.issues_dequeueReady hC fun _ _ => hq _ rfl).void
  | cancel q c x =>
    exact Issues.void (Q := fun _ => True) (issues_await (hq _ rfl) fun _ _ _ _ => trivial)
  | complete q c x => exact (q.issues_complete hC fun _ => hq _ rfl).void
  | fail q c x => exact (q.issues_fail hC fun _ => hq _ rfl).void
  | releaseRunningSlot q c x =>
    refine Issues.void (Q := fun _ => True) ?_
    exact (issues_perform (hq _ rfl)).bind fun _ _ => trivial
  | cleanupStaleRunning q c maxAge =>
    exact (q.issues_cleanupStaleRunning hC maxAge fun _ => hq _ rfl).void

end QueueCall

end AsyncScheduler
