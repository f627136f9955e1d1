import AsyncScheduler.Common.Awaiting
import AsyncScheduler.Models.Schedule

/-!
# The state of the control plane

The keyspace that the registries and the cron schedulers share, and the tasks that were created.
Every awaited Redis command or script is one command.
-/

namespace AsyncScheduler
open Keyspace

/-- What a cron scheduler asks the task creator for. -/
structure CronTask where
  tenantId : Json
  idempotencyKey : String
  template : Json
  deriving DecidableEq, Repr

inductive ControlCommand where
  | read
  /-- `datetime.now` of a round of firing. -/
  | clock
  /-- `datetime.now` for a time stamp in a record. -/
  | stamp
  | set (key : String) (value : Stored) (nx : Bool) (ex : Option ℚ)
  | delete (key : String)
  | expire (key : String) (seconds : ℚ)
  | sadd (key member : String)
  | srem (key member : String)
  | hset (key field value : String)
  | advanceNextFire (key : String) (nextFire now : ℚ)
  /-- `create_task`, with the schedule record that it is made for. -/
  | createTask (task : CronTask) (schedule : Dict)
  | sleep
  | advance (t : ℚ)
  deriving DecidableEq

structure ControlWorld where
  redis : Keyspace Stored
  tasks : List (CronTask × Dict)

namespace ControlWorld

def empty : ControlWorld := ⟨.empty, []⟩

def onRedis (w : ControlWorld) (f : Keyspace Stored → Keyspace Stored) : ControlWorld := { w with redis := f w.redis }

end ControlWorld

/-- `GET`, decode, change and `SET` without a deadline, as the two scripts of the schedules do. -/
def rewriteRecord (r : Keyspace Stored) (key : String) (f : Dict → Dict) : Keyspace Stored :=
  match r.get key with
  | some (some (.dict d)) => r.set key (.dict (f d)) none
  | _ => r

theorem get_rewriteRecord (r : Keyspace Stored) (k k' : String) (f : Dict → Dict) :
    (rewriteRecord r k f).get k' = if k' = k then (r.get k).map (Option.map (Stored.onDict f)) else r.get k' := by
  unfold rewriteRecord
  by_cases hk : k' = k
  · subst hk
    rw [if_pos rfl]
    match hget : r.get k' with
    | none => exact hget
    | some none => exact hget
    | some (some (.text s)) => exact hget
    | some (some (.json j)) => exact hget
    | some (some (.dict d)) => exact get_set_self r k' _ none
  · rw [if_neg hk]
    split
    · rw [set_eq_touch, get_touch _ _ _ hk]
    · rfl

def advancedTo (nextFire now : ℚ) (d : Dict) : Dict :=
  (d.set "next_fire_at" (.time nextFire)).set "last_triggered_at" (.time now)

namespace ControlWorld

def exec (w : ControlWorld) : ControlCommand → ControlWorld
  | .read | .clock | .stamp | .sleep => w
  | .set k v nx ex =>
    if !Keyspace.validEx ex || nx && w.redis.existsKey k then w else w.onRedis (·.set k v ex)
  | .delete k => w.onRedis (·.del k)
  | .expire k seconds => w.onRedis (·.expire k seconds)
  | .sadd k m => w.onRedis fun r => (r.sadd k m).getD r
  | .srem k m => w.onRedis fun r => (r.srem k m).getD r
  | .hset k f v => w.onRedis fun r => (r.hset k f v).getD r
  | .advanceNextFire k nextFire now => w.onRedis fun r => rewriteRecord r k (advancedTo nextFire now)
  | .createTask task d =>
    if w.tasks.any fun e => e.1.tenantId = task.tenantId ∧ e.1.idempotencyKey = task.idempotencyKey then w
    else { w with tasks := w.tasks ++ [(task, d)] }
  | .advance t => if w.redis.clock < t then w.onRedis (·.advance t) else w

end ControlWorld

def ControlCommand.apply (c : ControlCommand) (i : Fault) (w : ControlWorld) : ControlWorld :=
  match c with
  | .clock | .stamp | .sleep | .advance _ => w.exec c
  | _ => if i.applied then w.exec c else w

abbrev Control := Prog ControlCommand Fault ControlWorld PyErr

def orWrongType {α : Type} : Option α → Except PyErr α
  | none => .error wrongType
  | some a => .ok a

namespace Control

def get (k : String) : Control (Option Stored) := awaiting .read fun w => orWrongType (w.redis.get k)

def smembers (k : String) : Control (List String) := awaiting .read fun w => orWrongType (w.redis.smembers k)

def hget (k f : String) : Control (Option String) := awaiting .read fun w => orWrongType (w.redis.hget k f)

/-- `SET`; the reply is `None` when `nx` finds the key. -/
def set (k : String) (v : Stored) (nx : Bool) (ex : Option ℚ) : Control Bool :=
  awaiting (.set k v nx ex) fun w =>
    if Keyspace.validEx ex then .ok !(nx && w.redis.existsKey k) else .error invalidExpire

def delete (k : String) : Control Bool := awaiting (.delete k) fun w => .ok (w.redis.existsKey k)

def expire (k : String) (seconds : ℚ) : Control Unit := awaiting (.expire k seconds) fun _ => .ok ()

def sadd (k m : String) : Control Unit :=
  awaiting (.sadd k m) fun w => orWrongType ((w.redis.smembers k).map fun _ => ())

def srem (k m : String) : Control Unit :=
  awaiting (.srem k m) fun w => orWrongType ((w.redis.smembers k).map fun _ => ())

def hset (k f v : String) : Control Unit :=
  awaiting (.hset k f v) fun w => orWrongType ((w.redis.hgetall k).map fun _ => ())

def rewriteReply (w : ControlWorld) (k : String) : Except PyErr Bool :=
  match w.redis.get k with
  | none => .error wrongType
  | some none => .ok false
  | some (some (.dict _)) => .ok true
  | some (some (.text _)) => .error (.responseError "Expected value but found invalid token at character 1")
  | some (some (.json _)) => .error (.responseError "attempt to index local 'data'")

def now : Control ℚ := atOnce .clock fun w => w.redis.clock

def stamp : Control ℚ := atOnce .stamp fun w => w.redis.clock

section
variable (w : ControlWorld) (k m : String)

theorem runWith_set (v : Stored) {ex : Option ℚ} (hex : Keyspace.validEx ex = true) :
    (set k v false ex).runWith ControlCommand.apply .ok w =
      (.ok true, w.onRedis (·.touch k fun _ => some (.string v, ex.map (w.redis.clock + ·)))) := by
  rw [set, runWith_awaiting, if_pos hex]
  simp [ControlCommand.apply, Fault.applied, ControlWorld.exec, hex, ControlWorld.onRedis, set_eq_touch]

theorem runWith_sadd : (sadd k m).runWith ControlCommand.apply .ok w =
      (orWrongType ((w.redis.smembers k).map fun _ => ()), w.onRedis (·.touch k (Keyspace.added m))) := by
  rw [sadd, runWith_awaiting]
  simp [ControlCommand.apply, Fault.applied, ControlWorld.exec, ControlWorld.onRedis, sadd_eq_touch]

variable {w k} in
theorem runWith_sadd_ok (h : w.redis.smembers k ≠ none) :
    (sadd k m).runWith ControlCommand.apply .ok w = (.ok (), w.onRedis (·.touch k (Keyspace.added m))) := by
  obtain ⟨ms, hms⟩ := Option.ne_none_iff_exists'.mp h
  rw [runWith_sadd, hms]
  rfl

variable {w k} in
theorem runWith_sadd_error (h : w.redis.smembers k = none) :
    (sadd k m).runWith ControlCommand.apply .ok w = (.error wrongType, w) := by
  rw [runWith_sadd, h, ControlWorld.onRedis, touch_added_of_wrongType h]
  rfl

theorem runWith_srem : (srem k m).runWith ControlCommand.apply .ok w =
      (orWrongType ((w.redis.smembers k).map fun _ => ()), w.onRedis (·.touch k (Keyspace.removed m))) := by
  rw [srem, runWith_awaiting]
  simp [ControlCommand.apply, Fault.applied, ControlWorld.exec, ControlWorld.onRedis, srem_eq_touch]

variable {w k} in
theorem runWith_srem_ok (h : w.redis.smembers k ≠ none) :
    (srem k m).runWith ControlCommand.apply .ok w = (.ok (), w.onRedis (·.touch k (Keyspace.removed m))) := by
  obtain ⟨ms, hms⟩ := Option.ne_none_iff_exists'.mp h
  rw [runWith_srem, hms]
  rfl

variable {w k} in
theorem runWith_srem_error (h : w.redis.smembers k = none) :
    (srem k m).runWith ControlCommand.apply .ok w = (.error wrongType, w) := by
  rw [runWith_srem, h, ControlWorld.onRedis, touch_removed_of_wrongType h]
  rfl

theorem runWith_hset (f v : String) : (hset k f v).runWith ControlCommand.apply .ok w =
      (orWrongType ((w.redis.hgetall k).map fun _ => ()), w.onRedis (·.touch k (Keyspace.assigned f v))) := by
  rw [hset, runWith_awaiting]
  simp [ControlCommand.apply, Fault.applied, ControlWorld.exec, ControlWorld.onRedis, hset_eq_touch]

theorem runWith_delete : (delete k).runWith ControlCommand.apply .ok w =
      (.ok (w.redis.existsKey k), w.onRedis (·.touch k fun _ => none)) := by
  rw [delete, runWith_awaiting]
  rfl

theorem runWith_smembers :
    (smembers k).runWith ControlCommand.apply .ok w = (orWrongType (w.redis.smembers k), w) := by
  rw [smembers, runWith_awaiting]
  rfl

theorem runWith_get : (get k).runWith ControlCommand.apply .ok w = (orWrongType (w.redis.get k), w) := by
  rw [get, runWith_awaiting]
  rfl

theorem runWith_stamp : stamp.runWith ControlCommand.apply .ok w = (.ok w.redis.clock, w) := rfl

theorem runWith_hget (f : String) :
    (hget k f).runWith ControlCommand.apply .ok w = (orWrongType (w.redis.hget k f), w) := by
  rw [hget, runWith_awaiting]
  rfl

end

end Control

end AsyncScheduler
