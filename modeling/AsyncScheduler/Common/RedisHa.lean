import AsyncScheduler.Common.Awaiting
import AsyncScheduler.Shared.Keyspace

/-!
# The HA client

`RedisHA` retries a call, counts failures in a breaker of its own and, when degradation is on,
answers a failed write as if it had been made.
-/

namespace AsyncScheduler

/-- Methods of the client underneath. -/
inductive HaMethod (β : Type) where
  | set (key : String) (value : β) (nx : Bool) (ex : Option ℚ)
  | setex (key : String) (seconds : ℚ) (value : β)
  | hset (key field value : String)
  | zadd (key : String) (score : ℚ) (member : String)
  | sadd (key member : String)
  | get (key : String)
  | delete (key : String)
  | expire (key : String) (seconds : ℚ)

inductive HaReply (β : Type) where
  | none
  | true
  | int (n : Int)
  | value (v : β)

def HaReply.truthy {β : Type} (truth : β → Bool) : HaReply β → Bool
  | .none => false
  | .true => Bool.true
  | .int n => n ≠ 0
  | .value v => truth v

namespace HaMethod
variable {β : Type}

def name : HaMethod β → String
  | .set .. => "set"
  | .setex .. => "setex"
  | .hset .. => "hset"
  | .zadd .. => "zadd"
  | .sadd .. => "sadd"
  | .get _ => "get"
  | .delete _ => "delete"
  | .expire .. => "expire"

def exec (r : Keyspace β) : HaMethod β → Keyspace β
  | .set k v nx ex => if !Keyspace.validEx ex || nx && r.existsKey k then r else r.set k v ex
  | .setex k seconds v => if Keyspace.validEx (some seconds) then r.set k v (some seconds) else r
  | .hset k f v => (r.hset k f v).getD r
  | .zadd k score m => (r.zadd k score m).getD r
  | .sadd k m => (r.sadd k m).getD r
  | .get _ => r
  | .delete k => r.del k
  | .expire k seconds => r.expire k seconds

def reply (r : Keyspace β) : HaMethod β → Except PyErr (HaReply β)
  | .set k _ nx ex =>
    if !Keyspace.validEx ex then .error invalidExpire else .ok (if nx && r.existsKey k then .none else .true)
  | .setex _ seconds _ => if Keyspace.validEx (some seconds) then .ok .true else .error invalidExpire
  | .hset k f _ =>
    match r.hget k f with
    | Option.none => .error wrongType
    | some old => .ok (.int (if old = Option.none then 1 else 0))
  | .zadd k _ m =>
    match r.zrange k with
    | Option.none => .error wrongType
    | some ms => .ok (.int (if (ms.lookup m).isSome then 0 else 1))
  | .sadd k m =>
    match r.smembers k with
    | Option.none => .error wrongType
    | some ms => .ok (.int (if m ∈ ms then 0 else 1))
  | .get k =>
    match r.get k with
    | Option.none => .error wrongType
    | some Option.none => .ok .none
    | some (some v) => .ok (.value v)
  | .delete k => .ok (.int (if r.existsKey k then 1 else 0))
  | .expire k _ => .ok (.int (if r.existsKey k then 1 else 0))

end HaMethod

inductive HaState where
  | closed | open | halfOpen
  deriving DecidableEq, Repr

structure RedisHA where
  maxRetries : Int := 3
  failureThreshold : Int := 5
  resetTimeout : ℚ := 30
  degradationMode : Bool := true

/-- The attributes of one client object that its calls change. -/
structure HaMemory (β : Type) where
  /-- `_client` is set -/
  started : Bool
  isConnected : Bool
  failureCount : Nat
  lastFailureTime : Option ℚ
  state : HaState
  degradationQueue : List (HaMethod β)

namespace HaMemory
variable {β : Type}

def connected : HaMemory β := ⟨true, true, 0, none, .closed, []⟩

def recordFailure (threshold : Int) (now : ℚ) (m : HaMemory β) : HaMemory β :=
  { m with
    failureCount := m.failureCount + 1
    lastFailureTime := some now
    state := if threshold ≤ m.failureCount + 1 then .open else m.state }

def recordSuccess (m : HaMemory β) : HaMemory β :=
  { m with
    state := if m.state = .halfOpen then .closed else m.state
    failureCount := 0
    lastFailureTime := none }

def timedOut (timeout now : ℚ) (m : HaMemory β) : Bool :=
  match m.lastFailureTime with
  | none => false
  | some t => t ≠ 0 ∧ timeout < now - t

def shouldAllow (timeout now : ℚ) (m : HaMemory β) : Bool :=
  match m.state with
  | .closed | .halfOpen => true
  | .open => m.timedOut timeout now

def admitCall (timeout now : ℚ) (m : HaMemory β) : HaMemory β :=
  if m.state = .open ∧ m.timedOut timeout now then { m with state := .halfOpen } else m

end HaMemory

/-- Changes to the memory of a client between two awaits. -/
inductive HaUpdate (β : Type) where
  | admitCall (timeout : ℚ)
  | succeed
  | fail (threshold : Int)
  | disconnect
  | enqueue (m : HaMethod β)

inductive HaCommand (β : Type) where
  | call (m : HaMethod β)
  | memory (client : Nat) (u : HaUpdate β)
  | sleep
  | advance (t : ℚ)

structure HaWorld (β : Type) where
  redis : Keyspace β
  clients : Nat → HaMemory β

namespace HaWorld
variable {β : Type}

def update (w : HaWorld β) (n : Nat) (f : HaMemory β → HaMemory β) : HaWorld β :=
  { w with clients := Function.update w.clients n (f (w.clients n)) }

theorem update_eq_self {w : HaWorld β} {n : Nat} {f : HaMemory β → HaMemory β} (h : f (w.clients n) = w.clients n) :
    w.update n f = w := by
  rw [update, h, Function.update_eq_self]

def exec (w : HaWorld β) : HaCommand β → HaWorld β
  | .call m => { w with redis := m.exec w.redis }
  | .memory n (.admitCall timeout) => w.update n (·.admitCall timeout w.redis.clock)
  | .memory n .succeed => w.update n fun m => { m.recordSuccess with isConnected := true }
  | .memory n (.fail threshold) => w.update n (·.recordFailure threshold w.redis.clock)
  | .memory n .disconnect => w.update n ({ · with isConnected := false })
  | .memory n (.enqueue c) => w.update n fun m => { m with degradationQueue := m.degradationQueue ++ [c] }
  | .sleep => w
  | .advance t => if w.redis.clock < t then { w with redis := w.redis.advance t } else w

end HaWorld

def HaCommand.apply {β : Type} (c : HaCommand β) (i : Fault) (w : HaWorld β) : HaWorld β :=
  match c with
  | .call _ => if i.applied then w.exec c else w
  | _ => w.exec c

abbrev Ha (β : Type) := Prog (HaCommand β) Fault (HaWorld β) PyErr

namespace RedisHA
variable {β : Type} (ha : RedisHA) (n : Nat)

def deferred : List String := ["set", "setex", "hset", "zadd", "sadd"]

def pretend (name : String) : HaReply β :=
  if name = "zadd" then .int 1 else if name = "sadd" then .int 1 else .true

def attempts (m : HaMethod β) : Nat → Ha β (HaReply β)
  | 0 => pure .none
  | k + 1 =>
    exceptException
      (do
        let result ← awaiting (.call m) fun w => m.reply w.redis
        atOnce (.memory n .succeed) fun _ => ()
        pure result)
      fun e => do
        atOnce (.memory n (.fail ha.failureThreshold)) fun _ => ()
        if k ≠ 0 then
          pausing .sleep
          attempts m k
        else
          atOnce (.memory n .disconnect) fun _ => ()
          if ha.degradationMode ∧ m.name ∈ deferred then
            atOnce (.memory n (.enqueue m)) fun _ => ()
            pure (pretend m.name)
          else
            .raise e

def callWithRetry (m : HaMethod β) : Ha β (HaReply β) := do
  let (allowed, started) ← atOnce (.memory n (.admitCall ha.resetTimeout)) fun w =>
    ((w.clients n).shouldAllow ha.resetTimeout w.redis.clock, (w.clients n).started)
  if !allowed then
    .raise (.connectionError "Circuit breaker is OPEN")
  else if !started then
    .raise (.connectionError "Redis client not initialized")
  else
    ha.attempts n m ha.maxRetries.toNat

/-- `set(key, value, nx=True, ex=...)`. -/
def setNx (key : String) (value : β) (ex : Option ℚ) : Ha β (HaReply β) :=
  ha.callWithRetry n (.set key value true ex)

end RedisHA

end AsyncScheduler
