import AsyncScheduler.Platform.BaseRegistry

/-!
# The schedule registry

The base registry with a reverse index from schedule ids to tenants, which `set` writes and no
operation removes.
-/

namespace AsyncScheduler
open Prog

def scheduleTenantIdx : String := "schedules:sid_to_tenant"

structure ScheduleRegistry where
  ttlSeconds : Int := 31536000
  deriving DecidableEq, Repr

/-- An enabled schedule whose `next_fire_at` can be read and has come. -/
def Dict.due (asOf : ℚ) (d : Dict) : Bool :=
  (d.getD "enabled" (.bool true)).truthy &&
    match d.get "next_fire_at" with
    | some (.time t) => t ≤ asOf
    | _ => false

namespace ScheduleRegistry
variable (reg : ScheduleRegistry)

def base : BaseRegistry := ⟨"schedules", reg.ttlSeconds⟩

def set (tenantId scheduleId : String) (value : Stored) : Control Bool := do
  let result ← reg.base.set tenantId scheduleId value
  if result then
    Control.hset scheduleTenantIdx scheduleId tenantId
    pure result
  else
    pure result

def advanceNextFire (tenantId scheduleId : String) (nextFire : ℚ) : Control Bool := do
  let key := reg.base.makeKey tenantId scheduleId
  let now ← Control.stamp
  awaiting (.advanceNextFire key nextFire now) (Control.rewriteReply · key)

/-- A `for` over a list that may be `None`. -/
def iterated : Option (List String) → Control (List String)
  | none => .raise (.typeError "'NoneType' object is not iterable")
  | some l => pure l

def scheduleKeys : List String → Control (List (String × String))
  | [] => pure []
  | tenantId :: tenantIds => do
    let sids ← reg.base.list tenantId
    let sids ← iterated sids
    let rest ← scheduleKeys tenantIds
    pure (sids.map (tenantId, ·) ++ rest)

def parseDue (asOf : ℚ) : List (Option Stored) → Except PyErr (List Dict)
  | [] => .ok []
  | none :: raws | some (.text _) :: raws => parseDue asOf raws
  | some (.json _) :: _ => .error (.attributeError "object has no attribute 'get'")
  | some (.dict d) :: raws => (parseDue asOf raws).map fun due => if d.due asOf then d :: due else due

def listDue (asOf : ℚ) : Control (List Dict) := do
  let tenantIds ← reg.base.listAllTenants
  let tenantIds ← iterated tenantIds
  let keys ← reg.scheduleKeys tenantIds
  if keys = [] then
    pure []
  else
    let raws ← awaiting .read fun w => orWrongType (keys.mapM fun key => w.redis.get (reg.base.makeKey key.1 key.2))
    match parseDue asOf raws with
    | .ok due => pure due
    | .error e => .raise e

/-- The fallback of `update_next_fire`: the tenants in turn, until one lists the schedule. -/
def scanTenants (scheduleId : String) (nextFire : ℚ) : List String → Control Unit
  | [] => pure ()
  | tid :: tids => do
    let scheduleIds ← reg.base.list tid
    match scheduleIds with
    | none => .raise (.typeError "argument of type 'NoneType' is not iterable")
    | some ids =>
      if scheduleId ∈ ids then
        let _ ← reg.advanceNextFire tid scheduleId nextFire
        Control.hset scheduleTenantIdx scheduleId tid
      else
        scanTenants scheduleId nextFire tids

def updateNextFire (scheduleId : String) (nextFire : ℚ) : Control Unit := do
  let tenantId ← Control.hget scheduleTenantIdx scheduleId
  if tenantId.any (· ≠ "") then
    let _ ← reg.advanceNextFire (tenantId.getD "") scheduleId nextFire
    pure ()
  else
    let tenantIds ← reg.base.listAllTenants
    let tenantIds ← iterated tenantIds
    reg.scanTenants scheduleId nextFire tenantIds

def parseAll : List (Option Stored) → Except PyErr (List Dict)
  | [] => .ok []
  | none :: raws | some (.text _) :: raws => parseAll raws
  | some (.json _) :: _ => .error (.attributeError "object has no attribute 'get'")
  | some (.dict d) :: raws => (parseAll raws).map (d :: ·)

theorem parseDue_eq (asOf : ℚ) (raws : List (Option Stored)) :
    parseDue asOf raws = (parseAll raws).map (List.filter (Dict.due asOf)) := by
  fun_induction parseAll raws with
  | case1 => rfl
  | case2 raws ih => rw [parseDue, ih]
  | case3 raws s ih => rw [parseDue, ih]
  | case4 => rfl
  | case5 d raws ih =>
    rw [parseDue, ih]
    cases parseAll raws with
    | error e => rfl
    | ok all => by_cases hd : d.due asOf = true <;> simp [Except.map, hd]

def scanned (r : Keyspace Stored) (scheduleId : String) : List String → Option String
  | [] => none
  | tid :: tids =>
    match r.smembers (reg.base.indexKey tid) with
    | none => none
    | some ids => if scheduleId ∈ ids then some tid else scanned r scheduleId tids

/-- The tenant whose schedule of this id is advanced: the one in the reverse index or, without
an entry there, the first that lists the id. -/
def resolve (r : Keyspace Stored) (scheduleId : String) : Option String :=
  match r.hget scheduleTenantIdx scheduleId with
  | none => none
  | some tenantId =>
    if tenantId.any (· ≠ "") then tenantId else (r.smembers reg.base.tenantsKey).bind (reg.scanned r scheduleId)

section
variable (s : String) (u : ℚ) (w : ControlWorld)

theorem runWith_advanceNextFire (t : String) :
    (reg.advanceNextFire t s u).runWith ControlCommand.apply .ok w =
      (Control.rewriteReply w (reg.base.makeKey t s),
        w.onRedis (rewriteRecord · (reg.base.makeKey t s) (advancedTo u w.redis.clock))) := by
  rw [advanceNextFire, bind_eq, runWith_bind_ok (Control.runWith_stamp w), runWith_awaiting]
  rfl

/-- What an advance does when it reaches this tenant: the record is rewritten, and the reverse
index may get an entry. -/
def Reaches (w' : ControlWorld) : Option String → Prop
  | none => w' = w
  | some t => ∃ f, w' = w.onRedis fun r =>
      (rewriteRecord r (reg.base.makeKey t s) (advancedTo u r.clock)).touch scheduleTenantIdx f

theorem reaches_advanceNextFire (t : String) :
    reg.Reaches s u w ((reg.advanceNextFire t s u).runWith ControlCommand.apply .ok w).2 (some t) := by
  refine ⟨id, ?_⟩
  rw [runWith_advanceNextFire, ControlWorld.onRedis, ControlWorld.onRedis, Keyspace.touch_eq_self]
  rfl

theorem reaches_scanTenants (tids : List String) :
    reg.Reaches s u w ((reg.scanTenants s u tids).runWith ControlCommand.apply .ok w).2 (reg.scanned w.redis s tids) := by
  induction tids with
  | nil => rfl
  | cons tid tids ih =>
    rw [scanTenants, bind_eq, runWith_bind_ok (reg.base.runWith_list tid w), scanned]
    cases hi : w.redis.smembers (reg.base.indexKey tid) with
    | none => rfl
    | some ids =>
      dsimp only
      by_cases hs : s ∈ ids
      · rw [if_pos hs, if_pos hs, bind_eq, runWith_bind]
        have hr := reg.reaches_advanceNextFire s u w tid
        rw [runWith_advanceNextFire] at hr ⊢
        cases hre : Control.rewriteReply w (reg.base.makeKey tid s) with
        | error e => exact hr
        | ok b =>
          dsimp only
          rw [Control.runWith_hset]
          exact ⟨_, rfl⟩
      · rw [if_neg hs, if_neg hs]
        exact ih

/-- The update reaches the record that the index or the scan resolves. -/
theorem reaches_updateNextFire :
    reg.Reaches s u w ((reg.updateNextFire s u).runWith ControlCommand.apply .ok w).2 (reg.resolve w.redis s) := by
  rw [updateNextFire, bind_eq, runWith_bind, Control.runWith_hget, resolve]
  cases hf : w.redis.hget scheduleTenantIdx s with
  | none => rfl
  | some found =>
    simp only [orWrongType]
    by_cases he : found.any (· ≠ "") = true
    · obtain ⟨t, rfl⟩ : ∃ t, found = some t := by
        cases found with
        | none => cases he
        | some t => exact ⟨t, rfl⟩
      rw [if_pos he, if_pos he, bind_eq, runWith_bind]
      have hr := reg.reaches_advanceNextFire s u w t
      rw [runWith_advanceNextFire] at hr
      rw [Option.getD_some, runWith_advanceNextFire]
      cases hre : Control.rewriteReply w (reg.base.makeKey t s) <;> exact hr
    · rw [if_neg he, if_neg he, bind_eq, runWith_bind_ok (reg.base.runWith_listAllTenants w)]
      cases w.redis.smembers reg.base.tenantsKey with
      | none => rfl
      | some tids => exact reg.reaches_scanTenants s u w tids

end

end ScheduleRegistry

end AsyncScheduler
