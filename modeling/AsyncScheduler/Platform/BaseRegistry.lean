import AsyncScheduler.Platform.ControlWorld

/-!
# The base registry

Items of a tenant under `prefix:tenant:item`, one index set per tenant and one set of all tenants.
-/

namespace AsyncScheduler

structure BaseRegistry where
  /-- Without colons at its end. -/
  keyPrefix : String
  ttl : Int := 0
  deriving DecidableEq, Repr

namespace BaseRegistry
variable (reg : BaseRegistry)

def makeKey (tenantId itemId : String) : String := reg.keyPrefix ++ ":" ++ tenantId ++ ":" ++ itemId

def indexKey (tenantId : String) : String := reg.keyPrefix ++ ":index:" ++ tenantId

def tenantsKey : String := reg.keyPrefix ++ ":tenants"

/-- `_json_loads`; a text that is no JSON and `null` read as `None`. -/
def jsonLoads : Stored → Option Stored
  | .text _ => none
  | .json .null => none
  | v => some v

/-- `setex` when the registry has a time to live, `set` otherwise. -/
def ex : Option ℚ := if 0 < reg.ttl then some (reg.ttl : ℚ) else none

theorem validEx_ex : Keyspace.validEx reg.ex = true := by
  unfold ex
  split
  · simpa [Keyspace.validEx] using ‹0 < reg.ttl›
  · rfl

def get (tenantId itemId : String) : Control (Option Stored) := do
  let value ← suppressErrors do
    let data ← Control.get (reg.makeKey tenantId itemId)
    pure (data.bind jsonLoads)
  pure value.join

def set (tenantId itemId : String) (value : Stored) : Control Bool :=
  logExternalErrors do
    let _ ← Control.set (reg.makeKey tenantId itemId) value false reg.ex
    Control.sadd (reg.indexKey tenantId) itemId
    Control.sadd reg.tenantsKey tenantId
    pure true

def delete (tenantId itemId : String) : Control (Option Bool) :=
  suppressErrors do
    let removed ← Control.delete (reg.makeKey tenantId itemId)
    if removed then
      Control.srem (reg.indexKey tenantId) itemId
      pure true
    else
      pure false

def list (tenantId : String) : Control (Option (List String)) :=
  suppressErrors (Control.smembers (reg.indexKey tenantId))

def listAllTenants : Control (Option (List String)) := suppressErrors (Control.smembers reg.tenantsKey)

theorem makeKey_eq_makeKey {t i t' i' : String} :
    reg.makeKey t i = reg.makeKey t' i' ↔ t ++ ":" ++ i = t' ++ ":" ++ i' := by
  simp only [makeKey, String.append_assoc, String.append_right_inj]

theorem makeKey_eq_indexKey {t i t' : String} :
    reg.makeKey t i = reg.indexKey t' ↔ t ++ ":" ++ i = "index:" ++ t' := by
  have hi : reg.indexKey t' = reg.keyPrefix ++ (":" ++ ("index:" ++ t')) := by
    simp [indexKey, String.append_assoc, ← String.toList_inj]
  rw [hi]
  simp only [makeKey, String.append_assoc, String.append_right_inj]

theorem indexKey_inj {t t' : String} (h : reg.indexKey t = reg.indexKey t') : t = t' := by
  simpa only [indexKey, String.append_assoc, String.append_right_inj] using h

theorem makeKey_ne (t i : String) {tail : String} (ht : ':' ∉ tail.toList) :
    reg.makeKey t i ≠ reg.keyPrefix ++ ":" ++ tail := by
  intro h
  have hc := congrArg String.toList h
  simp only [makeKey, String.toList_append, List.append_assoc, List.append_cancel_left_eq] at hc
  apply ht
  rw [← hc]
  simp

theorem tenantsKey_eq : reg.tenantsKey = reg.keyPrefix ++ ":" ++ "tenants" := by
  rw [tenantsKey, String.append_assoc]
  rfl

theorem makeKey_ne_tenantsKey (t i : String) : reg.makeKey t i ≠ reg.tenantsKey := by
  rw [tenantsKey_eq]
  exact reg.makeKey_ne t i (by decide)

theorem indexKey_ne_tenantsKey (t : String) : reg.indexKey t ≠ reg.tenantsKey := by
  intro h
  have hc := congrArg String.toList h
  simp [indexKey, tenantsKey, String.toList_append] at hc

section
variable (t i : String) (w : ControlWorld)

def entry (v : Stored) (clock : ℚ) : Option (Value Stored × Option ℚ) :=
  some (.string v, reg.ex.map (clock + ·))

def failure : PyErr := wrongType.external

theorem runWith_set (v : Stored) : (reg.set t i v).runWith ControlCommand.apply .ok w =
      let r := w.redis.touch (reg.makeKey t i) fun _ => reg.entry v w.redis.clock
      let r' := r.touch (reg.indexKey t) (Keyspace.added i)
      if r.smembers (reg.indexKey t) = none then (.error failure, { w with redis := r })
      else if r'.smembers reg.tenantsKey = none then (.error failure, { w with redis := r' })
      else (.ok true, { w with redis := r'.touch reg.tenantsKey (Keyspace.added t) }) := by
  rw [set, runWith_logExternalErrors, Prog.bind_eq,
    Prog.runWith_bind_ok (Control.runWith_set _ _ _ reg.validEx_ex)]
  extract_lets r r'
  by_cases hi : r.smembers (reg.indexKey t) = none
  · rw [Prog.bind_eq, Prog.runWith_bind, Control.runWith_sadd_error _ hi, if_pos hi]
    rfl
  · rw [Prog.bind_eq, Prog.runWith_bind_ok (Control.runWith_sadd_ok _ hi), if_neg hi]
    by_cases ht : r'.smembers reg.tenantsKey = none
    · rw [Prog.bind_eq, Prog.runWith_bind, Control.runWith_sadd_error _ ht, if_pos ht]
      rfl
    · rw [Prog.bind_eq, Prog.runWith_bind_ok (Control.runWith_sadd_ok _ ht), if_neg ht]
      rfl

theorem runWith_delete : (reg.delete t i).runWith ControlCommand.apply .ok w =
      let r := w.redis.touch (reg.makeKey t i) fun _ => none
      if w.redis.existsKey (reg.makeKey t i) = false then (.ok (some false), { w with redis := r })
      else if r.smembers (reg.indexKey t) = none then (.ok none, { w with redis := r })
      else (.ok (some true), { w with redis := r.touch (reg.indexKey t) (Keyspace.removed i) }) := by
  rw [delete, runWith_suppressErrors, Prog.bind_eq, Prog.runWith_bind_ok (Control.runWith_delete _ _)]
  simp only [Prog.bind_eq]
  cases hp : w.redis.existsKey (reg.makeKey t i) with
  | false => rfl
  | true =>
    by_cases hi : (w.redis.touch (reg.makeKey t i) fun _ => none).smembers (reg.indexKey t) = none
    · simp only [if_true, Bool.true_eq_false, if_false, if_pos hi]
      rw [Prog.runWith_bind, Control.runWith_srem_error _ hi]
      rfl
    · simp only [if_true, Bool.true_eq_false, if_false, if_neg hi]
      rw [Prog.runWith_bind_ok (Control.runWith_srem_ok _ hi)]
      rfl

theorem entries_set (v : Stored) {k : String} (hi : k ≠ reg.makeKey t i) (hin : k ≠ reg.indexKey t)
    (ht : k ≠ reg.tenantsKey) :
    ((reg.set t i v).runWith ControlCommand.apply .ok w).2.redis.entries k = w.redis.entries k := by
  rw [runWith_set]
  extract_lets r r'
  split
  · rw [Keyspace.entries_touch, if_neg hi]
  split
  · rw [Keyspace.entries_touch, if_neg hin, Keyspace.entries_touch, if_neg hi]
  · rw [Keyspace.entries_touch, if_neg ht, Keyspace.entries_touch, if_neg hin, Keyspace.entries_touch, if_neg hi]

theorem entries_delete {k : String} (hi : k ≠ reg.makeKey t i) (hin : k ≠ reg.indexKey t) :
    ((reg.delete t i).runWith ControlCommand.apply .ok w).2.redis.entries k = w.redis.entries k := by
  rw [runWith_delete]
  extract_lets r
  split
  · rw [Keyspace.entries_touch, if_neg hi]
  split
  · rw [Keyspace.entries_touch, if_neg hi]
  · rw [Keyspace.entries_touch, if_neg hin, Keyspace.entries_touch, if_neg hi]

theorem runWith_get : (reg.get t i).runWith ControlCommand.apply .ok w =
      (.ok ((w.redis.get (reg.makeKey t i)).bind (Option.bind · jsonLoads)), w) := by
  rw [get, Prog.bind_eq, Prog.runWith_bind, runWith_suppressErrors, Prog.bind_eq, Prog.runWith_bind, Control.runWith_get]
  cases w.redis.get (reg.makeKey t i) with
  | none => rfl
  | some data => cases data <;> rfl

theorem runWith_list :
    (reg.list t).runWith ControlCommand.apply .ok w = (.ok (w.redis.smembers (reg.indexKey t)), w) := by
  rw [list, runWith_suppressErrors, Control.runWith_smembers]
  cases w.redis.smembers (reg.indexKey t) <;> rfl

theorem runWith_listAllTenants :
    reg.listAllTenants.runWith ControlCommand.apply .ok w = (.ok (w.redis.smembers reg.tenantsKey), w) := by
  rw [listAllTenants, runWith_suppressErrors, Control.runWith_smembers]
  cases w.redis.smembers reg.tenantsKey <;> rfl

end

end BaseRegistry

end AsyncScheduler
