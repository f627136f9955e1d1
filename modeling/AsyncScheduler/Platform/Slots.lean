import AsyncScheduler.Platform.QueueManager
import AsyncScheduler.Shared.Footprint

/-!
# Concurrency slots

The step-level slots of the queue manager and the adjustment of concurrency limits, and every
operation of the queue manager and the circuit breaker that is given a capability.
-/

namespace AsyncScheduler

open QueueKeys

/-- `tonumber(HGET key field or default)`, and the default again when that is no number. -/
def numberOr (stored : Option HashValue) (default : ℚ) : ℚ :=
  match stored with
  | none => default
  | some v => v.tonumber.getD default

/-- A number of a script as the integer of its reply: what is after the point is dropped. -/
def integerReply (q : ℚ) : Int := if q < 0 then ⌈q⌉ else ⌊q⌋

def luaAdjustConcurrent (configKey : String) (delta defaultVal : Int) (r : Store) : Int × Store :=
  let cur := numberOr (r.hget configKey "max_concurrent") defaultVal
  let newVal := max 1 (cur + delta)
  (integerReply newVal, r.hset configKey "max_concurrent" (.num newVal))

def luaAcquireSlot (capability slotId : String) (defaultMc nowTs ttl : Int) (r : Store) : Int × Store :=
  let maxConcurrent := numberOr (r.hget (slotConfig capability) "max_concurrent") defaultMc
  let cur := r.zcard (slotRunning capability)
  if maxConcurrent ≤ cur then (-1, r)
  else
    let r₁ := r.zadd (slotRunning capability) nowTs slotId
    if needsRefresh (r₁.zttl (slotRunning capability)) ttl then
      (1, (r₁.zexpireIn (slotRunning capability) ttl).hexpireIn (slotConfig capability) ttl)
    else (1, r₁)

def luaRecoverConcurrent (configKey : String) (defaultBaseline : Int) (r : Store) : Int × Store :=
  let baseline := numberOr (r.hget configKey "max_concurrent_baseline") defaultBaseline
  let cur := numberOr (r.hget configKey "max_concurrent") baseline
  if cur < baseline then
    let newVal := cur + 1
    (integerReply newVal, r.hset configKey "max_concurrent" (.num newVal))
  else (integerReply cur, r)

inductive SlotOp where
  | adjust (capability : String) (slot : Bool) (delta defaultVal : Int)
  | recover (capability : String) (defaultBaseline : Int)
  | acquire (capability slotId : String) (defaultMc nowTs ttl : Int)
  | release (capability slotId : String)
  | removeStale (capability : String) (slotIds : List String)
  deriving DecidableEq

/-- The config hash that `adjust_concurrent` changes. -/
def adjustedConfig (capability : String) (slot : Bool) : String :=
  if slot then slotConfig capability else config capability

def SlotOp.exec (r : Store) : SlotOp → Store
  | .adjust c slot delta defaultVal => (luaAdjustConcurrent (adjustedConfig c slot) delta defaultVal r).2
  | .recover c defaultBaseline => (luaRecoverConcurrent (config c) defaultBaseline r).2
  | .acquire c slotId defaultMc nowTs ttl => (luaAcquireSlot c slotId defaultMc nowTs ttl r).2
  | .release c slotId => r.zrem (slotRunning c) slotId
  | .removeStale c slotIds => r.zremAll (slotRunning c) slotIds

inductive SlotCommand where
  | base (c : Command)
  | slot (op : SlotOp)
  deriving DecidableEq

def SlotCommand.apply : SlotCommand → Fault → World → World
  | .base c, i, w => c.apply i w
  | .slot op, i, w => if i.applied then w.onRedis op.exec else w

abbrev SlotPy := Prog SlotCommand Fault World PyErr

namespace QueueManager

def adjustConcurrent (q : QueueManager) (capability : String) (delta : Int) (slot : Bool := false) : SlotPy Int :=
  awaiting (.slot (.adjust capability slot delta q.defaultMc)) fun w =>
    .ok (luaAdjustConcurrent (adjustedConfig capability slot) delta q.defaultMc w.redis).1

def tryRecoverConcurrent (q : QueueManager) (capability : String) : SlotPy Int :=
  awaiting (.slot (.recover capability q.defaultMc)) fun w =>
    .ok (luaRecoverConcurrent (config capability) q.defaultMc w.redis).1

/-- `max_concurrent or self._default_mc`: zero counts as not given. -/
def slotLimit (q : QueueManager) (maxConcurrent : Option Int) : Int :=
  match maxConcurrent with
  | none => q.defaultMc
  | some n => if n = 0 then q.defaultMc else n

def acquireConcurrencySlot (q : QueueManager) (capability slotId : String) (maxConcurrent : Option Int := none) :
    SlotPy Bool := do
  let t ← time.embed .base
  let mc := q.slotLimit maxConcurrent
  let result ← awaiting (.slot (.acquire capability slotId mc (toMs t) q.ttl)) fun w =>
    .ok (luaAcquireSlot capability slotId mc (toMs t) q.ttl w.redis).1
  pure (result = 1)

def releaseSlot (_ : QueueManager) (capability slotId : String) : SlotPy Bool :=
  awaiting (.slot (.release capability slotId)) fun _ => .ok true

def cleanupStaleSlots (_ : QueueManager) (capability : String) (maxAgeSeconds : ℚ := 300) : SlotPy Nat := do
  let t ← time.embed .base
  let stale ← (query fun w => w.redis.zrangeTo (slotRunning capability) (toMs (t - maxAgeSeconds))).embed .base
  if stale = [] then
    pure 0
  else
    awaiting (.slot (.removeStale capability stale)) fun _ => .ok stale.length

end QueueManager

namespace CircuitBreaker

def isOpen (cb : CircuitBreaker) (capability : String) : Py Bool := do
  let state ← cb.getState capability
  pure (state = .open)

end CircuitBreaker

inductive CapabilityOp where
  | enqueue (q : QueueManager) (taskId : String) (priority : Int) (executeAfterMs : ℚ)
  | dequeueReady (q : QueueManager)
  | cancel (q : QueueManager) (taskId : String)
  | complete (q : QueueManager) (taskId : String)
  | fail (q : QueueManager) (taskId : String)
  | releaseRunningSlot (q : QueueManager) (taskId : String)
  | adjustConcurrent (q : QueueManager) (delta : Int) (slot : Bool)
  | tryRecoverConcurrent (q : QueueManager)
  | acquireConcurrencySlot (q : QueueManager) (slotId : String) (maxConcurrent : Option Int)
  | releaseSlot (q : QueueManager) (slotId : String)
  | cleanupStaleRunning (q : QueueManager) (maxAgeSeconds : ℚ)
  | cleanupStaleSlots (q : QueueManager) (maxAgeSeconds : ℚ)
  | recordFailure (cb : CircuitBreaker)
  | recordSuccess (cb : CircuitBreaker)
  | getState (cb : CircuitBreaker)
  | isOpen (cb : CircuitBreaker)
  | allowRequest (cb : CircuitBreaker)

namespace CapabilityOp

def Reply : CapabilityOp → Type
  | .enqueue .. => EnqueueResult
  | .dequeueReady _ => Option String
  | .cancel .. | .complete .. | .fail .. | .releaseRunningSlot .. => Bool
  | .adjustConcurrent .. | .tryRecoverConcurrent _ => Int
  | .acquireConcurrencySlot .. | .releaseSlot .. => Bool
  | .cleanupStaleRunning .. | .cleanupStaleSlots .. => Nat
  | .recordFailure _ | .recordSuccess _ | .getState _ => BreakerState
  | .isOpen _ | .allowRequest _ => Bool

def program (c : String) : (op : CapabilityOp) → SlotPy op.Reply
  | .enqueue q x priority executeAfterMs => (q.enqueue c x priority executeAfterMs).embed .base
  | .dequeueReady q => (q.dequeueReady c).embed .base
  | .cancel q x => (q.cancel c x).embed .base
  | .complete q x => (q.complete c x).embed .base
  | .fail q x => (q.fail c x).embed .base
  | .releaseRunningSlot q x => (q.releaseRunningSlot c x).embed .base
  | .adjustConcurrent q delta slot => q.adjustConcurrent c delta slot
  | .tryRecoverConcurrent q => q.tryRecoverConcurrent c
  | .acquireConcurrencySlot q slotId maxConcurrent => q.acquireConcurrencySlot c slotId maxConcurrent
  | .releaseSlot q slotId => q.releaseSlot c slotId
  | .cleanupStaleRunning q maxAge => (q.cleanupStaleRunning c maxAge).embed .base
  | .cleanupStaleSlots q maxAge => q.cleanupStaleSlots c maxAge
  | .recordFailure cb => (cb.recordFailure c).embed .base
  | .recordSuccess cb => (cb.recordSuccess c).embed .base
  | .getState cb => (cb.getState c).embed .base
  | .isOpen cb => (cb.isOpen c).embed .base
  | .allowRequest cb => (cb.allowRequest c).embed .base

end CapabilityOp

end AsyncScheduler
