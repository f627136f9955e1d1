import Mathlib.Data.String.Basic
import Mathlib.Tactic.Common

/-!
# Redis keys

The key templates of the queue, the task cache, the execution lock, the reconciler and the
callbacks, and which of them can never be the same key.
-/

namespace AsyncScheduler
open String

variable {a b p c c' k : String}

namespace QueueKeys

def pending (capability : String) : String := "\x7bqueue:" ++ capability ++ "\x7d:pending"

def running (capability : String) : String := "\x7bqueue:" ++ capability ++ "\x7d:running"

def stats (capability : String) : String := "\x7bqueue:" ++ capability ++ "\x7d:stats"

def config (capability : String) : String := "\x7bqueue:" ++ capability ++ "\x7d:config"

def slotRunning (capability : String) : String := "\x7bslot:" ++ capability ++ "\x7d:running"

def slotConfig (capability : String) : String := "\x7bslot:" ++ capability ++ "\x7d:config"

def callbackRetry : String := "callback:retry:pending"

def callbackDone (taskId : String) : String := "callback:done:" ++ taskId

def callbackDlq : String := "callback:dlq"

def callbackSets : List String := [callbackRetry, callbackDlq]

end QueueKeys

def capabilitiesKey : String := "queue:capabilities:registry"

def taskKey (taskId : String) : String := "task:" ++ taskId

def lockKey (taskId : String) : String := "task_lock:" ++ taskId

def cancelKey (taskId : String) : String := "task_cancel:" ++ taskId

def requeueDedupKey (taskId : String) : String := "requeue_dedup:" ++ taskId

def reconcileLeaderKey : String := "reconcile_leader"

def retryPayloadKey (taskId : String) : String := "callback:retry:payload:" ++ taskId

def txKey (txId : String) : String := "tx:" ++ txId

def breakerPrefix : String := "queue:cb"

def breakerStateKey (capability : String) : String := breakerPrefix ++ ":" ++ capability ++ ":cb:state"

def breakerCountKey (capability : String) : String := breakerPrefix ++ ":" ++ capability ++ ":cb:failures"

def breakerHalfOpenKey (capability : String) : String :=
  breakerPrefix ++ ":" ++ capability ++ ":cb:half_open"

theorem append_right_inj (h : p ++ a = p ++ b) : a = b := by
  apply toList_inj.mp
  simpa [toList_append] using congrArg String.toList h

@[simp] theorem pending_eq_pending : QueueKeys.pending c = QueueKeys.pending c' ↔ c = c' := by
  refine ⟨fun h => toList_inj.mp ?_, congrArg _⟩
  simpa [QueueKeys.pending, toList_append] using congrArg String.toList h

@[simp] theorem running_eq_running : QueueKeys.running c = QueueKeys.running c' ↔ c = c' := by
  refine ⟨fun h => toList_inj.mp ?_, congrArg _⟩
  simpa [QueueKeys.running, toList_append] using congrArg String.toList h

theorem pending_ne_running (c c' : String) : QueueKeys.pending c ≠ QueueKeys.running c' := by
  intro h
  have hl := congrArg String.toList h
  simp only [QueueKeys.pending, QueueKeys.running, toList_append] at hl
  have hs := List.append_inj_right' hl (by decide)
  exact absurd hs (by decide)

theorem config_ne_stats (c c' : String) : QueueKeys.config c ≠ QueueKeys.stats c' := by
  intro h
  have hl := congrArg (fun s => s.toList.getLast?) h
  have hc : "\x7d:config".toList.getLast? = some 'g' := by decide
  have hs : "\x7d:stats".toList.getLast? = some 's' := by decide
  simp only [QueueKeys.config, QueueKeys.stats, toList_append, List.getLast?_append, hc, hs,
    Option.some_or] at hl
  exact absurd hl (by decide)

theorem pending_notMem_callbackSets (c : String) : QueueKeys.pending c ∉ QueueKeys.callbackSets := by
  intro h
  simp only [QueueKeys.callbackSets, List.mem_cons, List.not_mem_nil, or_false] at h
  rcases h with h | h
  · simpa [QueueKeys.callbackRetry, QueueKeys.pending, toList_append] using congrArg String.toList h
  · simpa [QueueKeys.callbackDlq, QueueKeys.pending, toList_append] using congrArg String.toList h

theorem running_notMem_callbackSets (c : String) : QueueKeys.running c ∉ QueueKeys.callbackSets := by
  intro h
  simp only [QueueKeys.callbackSets, List.mem_cons, List.not_mem_nil, or_false] at h
  rcases h with h | h
  · simpa [QueueKeys.callbackRetry, QueueKeys.running, toList_append] using congrArg String.toList h
  · simpa [QueueKeys.callbackDlq, QueueKeys.running, toList_append] using congrArg String.toList h

theorem append_ne {q : String} (n : Nat) (hp : n < p.toList.length) (hq : n < q.toList.length)
    (hne : p.toList[n]? ≠ q.toList[n]?) (a b : String) : p ++ a ≠ q ++ b := by
  intro h
  apply hne
  have hget := congrArg (fun s => s.toList[n]?) h
  simpa only [toList_append, List.getElem?_append_left hp, List.getElem?_append_left hq] using hget

/-- A key that neither the task cache, the reconciler, the callbacks nor the breaker use. -/
structure Foreign (k : String) : Prop where
  task : ∀ id, k ≠ taskKey id
  dedup : ∀ id, k ≠ requeueDedupKey id
  leader : k ≠ reconcileLeaderKey
  payload : ∀ id, k ≠ retryPayloadKey id
  tx : ∀ id, k ≠ txKey id
  breaker : ∀ s, k ≠ breakerPrefix ++ s

theorem foreign_cancelKey (id : String) : Foreign (cancelKey id) where
  task := append_ne 4 (by decide) (by decide) (by decide) id
  dedup := append_ne 0 (by decide) (by decide) (by decide) id
  leader := append_ne (q := reconcileLeaderKey) 0 (by decide) (by decide) (by decide) id ""
  payload := append_ne 0 (by decide) (by decide) (by decide) id
  tx := append_ne 1 (by decide) (by decide) (by decide) id
  breaker := append_ne 0 (by decide) (by decide) (by decide) id

theorem foreign_lockKey (id : String) : Foreign (lockKey id) where
  task := append_ne 4 (by decide) (by decide) (by decide) id
  dedup := append_ne 0 (by decide) (by decide) (by decide) id
  leader := append_ne (q := reconcileLeaderKey) 0 (by decide) (by decide) (by decide) id ""
  payload := append_ne 0 (by decide) (by decide) (by decide) id
  tx := append_ne 1 (by decide) (by decide) (by decide) id
  breaker := append_ne 0 (by decide) (by decide) (by decide) id

theorem not_mem_breakerKeys (h : ∀ s, k ≠ breakerPrefix ++ s) (c : String) :
    k ∉ [breakerStateKey c, breakerCountKey c, breakerHalfOpenKey c] := by
  simp only [breakerStateKey, breakerCountKey, breakerHalfOpenKey, append_assoc, List.mem_cons,
    List.not_mem_nil, or_false, not_or]
  exact ⟨h _, h _, h _⟩

theorem breakerCountKey_ne_breakerStateKey (c : String) : breakerCountKey c ≠ breakerStateKey c := by
  intro h
  simpa [breakerCountKey, breakerStateKey, toList_append] using congrArg String.toList h

theorem taskKey_notMem_breakerKeys (id c : String) :
    taskKey id ∉ [breakerStateKey c, breakerCountKey c, breakerHalfOpenKey c] :=
  not_mem_breakerKeys (append_ne 0 (by decide) (by decide) (by decide) id) c

@[simp] theorem taskKey_eq_taskKey : taskKey a = taskKey b ↔ a = b :=
  ⟨append_right_inj, congrArg _⟩

theorem taskKey_ne_leaderKey (id : String) : taskKey id ≠ reconcileLeaderKey :=
  append_ne (q := reconcileLeaderKey) 0 (by decide) (by decide) (by decide) id ""

theorem taskKey_ne_dedupKey (id id' : String) : taskKey id ≠ requeueDedupKey id' :=
  append_ne 0 (by decide) (by decide) (by decide) id id'

theorem taskKey_ne_payloadKey (id id' : String) : taskKey id ≠ retryPayloadKey id' :=
  append_ne 0 (by decide) (by decide) (by decide) id id'

@[simp] theorem txKey_eq_txKey : txKey a = txKey b ↔ a = b :=
  ⟨append_right_inj, congrArg _⟩

theorem taskKey_ne_txKey (id id' : String) : taskKey id ≠ txKey id' :=
  append_ne 1 (by decide) (by decide) (by decide) id id'

theorem Foreign.breakerKeys (h : Foreign k) (c : String) :
    k ∉ [breakerStateKey c, breakerCountKey c, breakerHalfOpenKey c] := not_mem_breakerKeys h.breaker c

theorem cancelKey_ne_lockKey (id x : String) : cancelKey id ≠ lockKey x :=
  append_ne 5 (by decide) (by decide) (by decide) id x

@[simp] theorem lockKey_eq_lockKey : lockKey a = lockKey b ↔ a = b :=
  ⟨append_right_inj, congrArg _⟩

end AsyncScheduler
