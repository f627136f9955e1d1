import AsyncScheduler.Models.Task
import AsyncScheduler.Platform.QueueKeys
import AsyncScheduler.Shared.Redis

/-!
# Lua scripts

The scripts that the queue manager, the circuit breaker, the executor and the reconciler register,
each as one function on the keyspace, and the values the string keys hold.
-/

namespace AsyncScheduler

inductive TxStatus where
  | pendingRedis | committed | failed | recovered | expired
  deriving DecidableEq, Repr

structure TxRecord where
  txId : String
  taskId : String
  operation : String
  status : TxStatus := .pendingRedis
  mysqlWritten : Bool := false
  redisWritten : Bool := false
  createdAt : ℚ
  retryCount : Nat := 0
  lastError : String := ""
  payload : List (String × String) := []
  deriving DecidableEq, Repr

structure RetryEvent where
  taskId : String
  callbackUrl : String
  status : Option String
  output : Option String
  attempt : Nat
  deriving DecidableEq, Repr

inductive Blob where
  | text (s : String)
  | num (n : Int)
  | task (doc : TaskDoc)
  | tx (record : TxRecord)
  | retry (event : RetryEvent)
  deriving DecidableEq, Repr

namespace Blob

/-- Truth of a reply of `GET`: an empty value is false. -/
def truthy : Option Blob → Bool
  | none => false
  | some (.text s) => s ≠ ""
  | some _ => true

def taskDoc : Blob → Option TaskDoc
  | .task doc => some doc
  | _ => none

def txRecord : Blob → Option TxRecord
  | .tx record => some record
  | _ => none

end Blob

abbrev Store := Redis Blob

theorem Blob.existsKey_of_truthy {r : Store} {k : String} (h : Blob.truthy (r.get k) = true) :
    r.existsKey k = true := by
  unfold Redis.get at h
  unfold Redis.existsKey
  cases hk : r.strings k with
  | none =>
    rw [hk] at h
    cases h
  | some e => rfl

open QueueKeys

/-- A limit from the config hash, or the default when it is absent, unreadable or not positive. -/
def effectiveLimit (stored : Option HashValue) (default : Int) : ℚ :=
  match stored with
  | none => default
  | some v =>
    match v.tonumber with
    | some q => if q ≤ 0 then default else q
    | none => default

def needsRefresh (remaining ttl : Int) : Bool := remaining = -1 ∨ (remaining : ℚ) < ttl / 2

def refreshZset (k : String) (ttl : Int) (r : Store) : Store :=
  if needsRefresh (r.zttl k) ttl then r.zexpireIn k ttl else r

def refreshHash (k : String) (ttl : Int) (r : Store) : Store :=
  if needsRefresh (r.httl k) ttl then r.hexpireIn k ttl else r

def luaEnqueue (capability taskId : String) (score : ℚ) (defaultDepth ttl : Int) (r : Store) : (Int × Nat) × Store :=
  let maxDepth := effectiveLimit (r.hget (config capability) "max_queue_depth") defaultDepth
  let cur := r.zcard (pending capability)
  if maxDepth ≤ cur then ((-1, cur), r)
  else
    let r₁ := r.zadd (pending capability) score taskId
    let r₂ := r₁.hincrby (stats capability) "total_enqueued" 1
    let cnt := r₂.zcard (pending capability)
    let r₃ := refreshZset (pending capability) ttl r₂
    let r₄ := refreshHash (stats capability) ttl r₃
    ((cur + 1, cnt), refreshHash (config capability) ttl r₄)

/-- The part of a score below the priority: `sc % 10000000000000`. -/
def scoreTime (score : ℚ) : ℚ := score - 10000000000000 * ⌊score / 10000000000000⌋

def firstReady (capability : String) (nowMs scanLimit : Int) (r : Store) : Option String :=
  ((r.zrangeAll (pending capability) scanLimit).find? fun e => scoreTime e.2 ≤ nowMs).map Prod.fst

def luaDequeueReady (capability : String) (defaultMc nowMs scanLimit : Int) (r : Store) : Option String × Store :=
  let maxConcurrent := effectiveLimit (r.hget (config capability) "max_concurrent") defaultMc
  if maxConcurrent ≤ r.zcard (running capability) then (none, r)
  else
    match firstReady capability nowMs scanLimit r with
    | none => (none, r)
    | some tid =>
      let r₁ := r.zrem (pending capability) tid
      let r₂ := r₁.zadd (running capability) nowMs tid
      (some tid, r₂.hincrby (stats capability) "total_dequeued" 1)

def luaCancel (capability taskId : String) (r : Store) : Bool × Store :=
  if taskId ∈ r.zsets (pending capability) then (true, r.zrem (pending capability) taskId)
  else (taskId ∈ r.zsets (running capability), r.zrem (running capability) taskId)

def luaComplete (capability taskId counter : String) (r : Store) : Store :=
  (r.zrem (running capability) taskId).hincrby (stats capability) counter 1

/-- `INCR`: the deadline of the key stays; a value that is no number is an error. -/
def incr (r : Store) (k : String) : Option (Int × Store) :=
  match r.strings k with
  | none => some (1, r.set k (.num 1) none)
  | some (.num n, d) =>
    some (n + 1, { r with strings := Function.update r.strings k (some (.num (n + 1), d)) })
  | some _ => none

inductive BreakerState where
  | closed | open | halfOpen
  deriving DecidableEq, Repr

/-- `GET state_key` as the scripts compare it; any other text falls through to closed. -/
def breakerState (capability : String) (r : Store) : BreakerState :=
  match r.get (breakerStateKey capability) with
  | some (.text s) => if s = "open" then .open else if s = "half_open" then .halfOpen else .closed
  | _ => .closed

def notAnInteger : PyErr := .responseError "value is not an integer or out of range"

def luaRecordFailure (capability : String) (threshold openTtl : Int) (r : Store) :
    Except PyErr BreakerState × Store :=
  let state := breakerState capability r
  if state = .open then (.ok .open, r)
  else
    match incr r (breakerCountKey capability) with
    | none => (.error notAnInteger, r)
    | some (count, r₁) =>
      let r₂ := r₁.expire (breakerCountKey capability) (openTtl * 4)
      if threshold ≤ count ∨ state = .halfOpen then
        let r₃ := r₂.set (breakerStateKey capability) (.text "open") none
        let r₄ := r₃.expire (breakerStateKey capability) openTtl
        (.ok .open, r₄.del (breakerCountKey capability))
      else (.ok .closed, r₂)

def luaRecordSuccess (capability : String) (r : Store) : BreakerState × Store :=
  let state := breakerState capability r
  if state = .halfOpen then
    (.closed, (r.set (breakerStateKey capability) (.text "closed") none).del (breakerCountKey capability))
  else (state, r.del (breakerCountKey capability))

def luaCheckState (capability : String) (halfOpenMax : Int) (r : Store) : Except PyErr BreakerState × Store :=
  let hoKey := breakerHalfOpenKey capability
  match breakerState capability r with
  | .closed => (.ok .closed, r)
  | .open => (.ok .open, r)
  | .halfOpen =>
    match r.get hoKey with
    | some (.num n) => probe hoKey n
    | none => probe hoKey 0
    | some _ => (.error (.responseError "attempt to compare nil with number"), r)
where
  probe (hoKey : String) (attempts : Int) : Except PyErr BreakerState × Store :=
    if halfOpenMax ≤ attempts then (.ok .open, r)
    else
      match incr r hoKey with
      | none => (.error notAnInteger, r)
      | some (_, r₁) => (.ok .halfOpen, r₁.expire hoKey 120)

def luaRenew (k : String) (v : Blob) (seconds : ℚ) (r : Store) : Bool × Store :=
  if r.get k = some v then (true, r.expire k seconds) else (false, r)

def luaLockRelease (k : String) (v : Blob) (r : Store) : Bool × Store :=
  if r.get k = some v then (true, r.del k) else (false, r)

end AsyncScheduler
