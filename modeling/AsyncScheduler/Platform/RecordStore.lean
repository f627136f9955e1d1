import AsyncScheduler.Platform.BaseRegistry
import AsyncScheduler.Shared.Codec

/-!
# Stored records

The keyspace of the registries whose items are nested JSON objects, with the scripts that change an
item in place.
-/

namespace AsyncScheduler

/-- What stands at a string key: a JSON value, or a text that is none. -/
inductive Record where
  | json (j : JsonValue)
  | text (s : String)
  deriving DecidableEq

abbrev Records := Keyspace Record

namespace Keyspace
variable {β : Type}
variable {k k' : String} {r : Keyspace β} {ms : List (String × ℚ)}

def zrem (r : Keyspace β) (k m : String) : Option (Keyspace β) :=
  (r.zrange k).map fun ms =>
    if ms.lookup m = none then r
    else if ms.filter (·.1 ≠ m) = [] then r.del k
    else r.put k (.zset (ms.filter (·.1 ≠ m))) (r.deadline k)

theorem smembers_touch_added_new {m : String} {ms : List String} (h : r.smembers k = some ms)
    (hm : m ∉ ms) : (r.touch k (added m)).smembers k = some (ms ++ [m]) := by
  unfold smembers at h ⊢
  rw [entries_touch, if_pos rfl]
  match hk : r.entries k with
  | none =>
    rw [hk] at h
    obtain rfl := Option.some.inj h
    rfl
  | some (.set ms', dl) =>
    rw [hk] at h
    obtain rfl := Option.some.inj h
    simp [added, hm]
  | some (.string v, dl) => simp [hk] at h
  | some (.hash fs, dl) => simp [hk] at h
  | some (.zset zs, dl) => simp [hk] at h

theorem entries_expire (r : Keyspace β) (hk : k' ≠ k) (seconds : ℚ) :
    (r.expire k seconds).entries k' = r.entries k' := by
  unfold expire
  split
  · rfl
  split
  · simp [del, hk]
  · simp [put, hk]

theorem get_expire (r : Keyspace β) (hk : k' ≠ k) (seconds : ℚ) : (r.expire k seconds).get k' = r.get k' := by
  rw [get, get, entries_expire r hk]

theorem entries_zadd (r : Keyspace β) (hk : k' ≠ k) (score : ℚ) (m : String) :
    ((r.zadd k score m).getD r).entries k' = r.entries k' := by
  unfold zadd
  cases r.zrange k with
  | none => rfl
  | some ms => simp [put, hk]

theorem zrange_zadd (h : r.zrange k = some ms) (score : ℚ) (m : String) :
    ((r.zadd k score m).getD r).zrange k = some ((m, score) :: ms.filter (·.1 ≠ m)) := by
  rw [zadd, h]
  simp [zrange, put]

theorem entries_zrem (r : Keyspace β) (hk : k' ≠ k) (m : String) :
    ((r.zrem k m).getD r).entries k' = r.entries k' := by
  unfold zrem
  cases r.zrange k with
  | none => rfl
  | some ms =>
    simp only [Option.map_some, Option.getD_some]
    split
    · rfl
    split
    · simp [del, hk]
    · simp [put, hk]

theorem get_zrem (r : Keyspace β) (hk : k' ≠ k) (m : String) : ((r.zrem k m).getD r).get k' = r.get k' := by
  rw [get, get, entries_zrem r hk]

theorem zrange_zrem (h : r.zrange k = some ms) (m : String) :
    ((r.zrem k m).getD r).zrange k = some (ms.filter (·.1 ≠ m)) := by
  rw [zrem, h]
  simp only [Option.map_some, Option.getD_some]
  split
  · next ha =>
    rw [h, List.filter_eq_self.mpr]
    intro e he
    have hne := List.lookup_eq_none_iff.mp ha e he
    rw [bne_iff_ne] at hne
    simpa using hne.symm
  split
  · next hem =>
    rw [hem]
    simp [zrange, del]
  · simp [zrange, put]

theorem get_zadd (r : Keyspace β) (hk : k' ≠ k) (score : ℚ) (m : String) :
    ((r.zadd k score m).getD r).get k' = r.get k' := by
  rw [get, get, entries_zadd r hk]

/-- `ZRANGEBYSCORE key -inf top`, by score and then by member. -/
def zrangeTo (r : Keyspace β) (k : String) (top : ℚ) : Option (List String) :=
  (r.zrange k).map fun ms =>
    ((ms.filter (·.2 ≤ top)).insertionSort fun a b => a.2 < b.2 ∨ a.2 = b.2 ∧ a.1 ≤ b.1).map Prod.fst

end Keyspace

/-- The fields of the table that `cjson.decode` makes of a value; the items of an array have numbers
for names. -/
def luaTable : JsonValue → Option JsonObj
  | .obj fields => some fields
  | .arr items => some (items.zipIdx.map fun e => (toString (e.2 + 1), e.1))
  | _ => none

def notJson : PyErr := .responseError "Expected value but found invalid token at character 1"

def notIndexable : PyErr := .responseError "attempt to index a non-table value"

/-- `GET` and `cjson.decode`; there may be nothing to decode. -/
def luaDecode (r : Records) (key : String) : Except PyErr (Option JsonObj) :=
  match r.get key with
  | none => .error wrongType
  | some none => .ok none
  | some (some (.text _)) => .error notJson
  | some (some (.json j)) =>
    match luaTable j with
    | some fields => .ok (some fields)
    | none => .error notIndexable

section
variable (number : ℚ → ℚ)
variable {r : Records} {k : String}

/-- `SET` to what `cjson.encode` makes of a table that has a named field. -/
def luaStore (r : Records) (key : String) (fields : JsonObj) : Records :=
  r.set key (.json ((JsonValue.obj fields).reencode number)) none

def decimal (digits : List Char) : Option Nat :=
  if digits ≠ [] ∧ digits.all Char.isDigit then some (Nat.ofDigitChars 10 digits 0) else none

/-- `tonumber` of a counter; the other forms of a number are never written there. -/
def tonumber (s : String) : Option Int :=
  match s.toList with
  | '-' :: digits => (decimal digits).map fun n => -(n : Int)
  | digits => (decimal digits).map fun n => (n : Int)

def arithmeticOnNil : PyErr := .responseError "attempt to perform arithmetic on a nil value"

/-- The counters of consecutive successes and failures: one is raised and the other is reset. -/
def nextCounters (ok : Bool) (consecOk consecFail : Option Int) : Option (Int × Int) :=
  if ok then consecOk.map fun n => (n + 1, 0) else consecFail.map fun n => (0, n + 1)

def nextStatus (status : String) (consecOk consecFail unhealthyThresh healthyThresh : Int) : String :=
  if (status = "unhealthy" ∨ status = "degraded") ∧ healthyThresh ≤ consecOk then "healthy"
  else if status = "healthy" ∧ 2 ≤ consecFail then "degraded"
  else if status = "degraded" ∧ unhealthyThresh ≤ consecFail then "unhealthy"
  else status

def luaHset (r : Records) (key : String) (fields : List (String × String)) : Records :=
  fields.foldl (fun r e => (r.hset key e.1 e.2).getD r) r

def luaUpdateHealth (hkey capkey : String) (ok : Bool) (unhealthyThresh healthyThresh : Int) (r : Records) :
    Except PyErr String × Records :=
  match r.hgetall hkey with
  | none => (.error wrongType, r)
  | some fs =>
    let status := (fs.lookup "status").getD "healthy"
    match nextCounters ok (tonumber ((fs.lookup "consec_ok").getD "0")) (tonumber ((fs.lookup "consec_fail").getD "0")) with
    | none => (.error arithmeticOnNil, r)
    | some (consecOk, consecFail) =>
      let newStatus := nextStatus status consecOk consecFail unhealthyThresh healthyThresh
      let r' := luaHset r hkey
        [("status", newStatus), ("consec_ok", toString consecOk), ("consec_fail", toString consecFail)]
      match luaDecode r' capkey with
      | .error e => (.error e, r')
      | .ok none => (.ok newStatus, r')
      | .ok (some cap) =>
        (.ok newStatus, luaStore number r' capkey (JsonValue.assign cap "health_status" (.str newStatus)))

def luaUpdateCluster (key : String) (fields : JsonObj) (r : Records) : Except PyErr Unit × Records :=
  match luaDecode r key with
  | .error e => (.error e, r)
  | .ok none => (.error (.responseError "not_found"), r)
  | .ok (some obj) => (.ok (), luaStore number r key (JsonValue.assignAll obj fields))

def luaReserve (key lease cid : String) (ttlMs : Int) (r : Records) : Except PyErr Unit × Records :=
  match luaDecode r key with
  | .error e => (.error e, r)
  | .ok none => (.error (.responseError "node_not_found"), r)
  | .ok (some node) =>
    if node.lookup "state" ≠ some (.str "idle") then (.error (.responseError "not_idle"), r)
    else
      let r' := luaStore number r key
        (JsonValue.assign (JsonValue.assign node "state" (.str "reserved")) "cluster_id" (.str cid))
      (.ok (), (r'.set lease (.text cid) none).expire lease ((ttlMs : ℚ) / 1000))

theorem get_luaHset {k' : String} (hk : k' ≠ k) (fields : List (String × String)) :
    (luaHset r k fields).get k' = r.get k' := by
  unfold luaHset
  induction fields generalizing r with
  | nil => rfl
  | cons e fields ih => rw [List.foldl_cons, ih, Keyspace.hset_eq_touch, Keyspace.get_touch _ _ _ hk]

/-- The value of a field after some were set: the last one that was given for it, or the old one. -/
def assignedField (fields : List (String × String)) (f : String) (old : Option String) : Option String :=
  fields.foldl (fun v e => if f = e.1 then some e.2 else v) old

theorem hgetall_luaHset {fs : List (String × String)} (h : r.hgetall k = some fs) (fields : List (String × String)) :
    ∃ fs', (luaHset r k fields).hgetall k = some fs' ∧ ∀ f, fs'.lookup f = assignedField fields f (fs.lookup f) := by
  unfold luaHset assignedField
  induction fields generalizing r fs with
  | nil => exact ⟨fs, h, fun _ => rfl⟩
  | cons e fields ih =>
    have hs : ((r.hset k e.1 e.2).getD r).hgetall k = some ((e.1, e.2) :: fs.filter (·.1 ≠ e.1)) := by
      rw [Keyspace.hset, h]
      simp [Keyspace.hgetall, Keyspace.put]
    obtain ⟨fs', hfs', hl⟩ := ih hs
    refine ⟨fs', hfs', fun f => ?_⟩
    rw [hl f, List.foldl_cons]
    congr 1
    by_cases hf : f = e.1
    · subst hf
      rw [List.lookup_cons_self, if_pos rfl]
    · have hne : (f == e.1) = false := beq_eq_false_iff_ne.mpr hf
      rw [List.lookup_cons, hne, if_neg hf, lookup_filter_key (fun n => n ≠ e.1)]
      simp [hf]

theorem get_luaStore_self (r : Records) (k : String) (fields : JsonObj) :
    (luaStore number r k fields).get k = some (some (.json ((JsonValue.obj fields).reencode number))) :=
  Keyspace.get_set_self _ _ _ _

theorem luaDecode_obj {fields : JsonObj}
    (h : r.get k = some (some (.json (.obj fields)))) : luaDecode r k = .ok (some fields) := by
  rw [luaDecode, h]
  rfl

inductive RecordCommand where
  | read
  | clock
  | set (key : String) (value : Record)
  | delete (key : String)
  | sadd (key member : String)
  | hset (key : String) (fields : List (String × String))
  | zadd (key : String) (score : ℚ) (member : String)
  | zrem (key member : String)
  | updateHealth (hkey capkey : String) (ok : Bool) (unhealthyThresh healthyThresh : Int)
  | updateCluster (key : String) (fields : JsonObj)
  | reserve (key lease cid : String) (ttlMs : Int)

def RecordCommand.exec (r : Records) : RecordCommand → Records
  | .read | .clock => r
  | .set k v => r.set k v none
  | .delete k => r.del k
  | .sadd k m => (r.sadd k m).getD r
  | .hset k fs => luaHset r k fs
  | .zadd k score m => (r.zadd k score m).getD r
  | .zrem k m => (r.zrem k m).getD r
  | .updateHealth hkey capkey ok u h => (luaUpdateHealth number hkey capkey ok u h r).2
  | .updateCluster k fs => (luaUpdateCluster number k fs r).2
  | .reserve k lease cid ttlMs => (luaReserve number k lease cid ttlMs r).2

def RecordCommand.apply (c : RecordCommand) (i : Fault) (r : Records) : Records :=
  if i.applied then c.exec number r else r

end

abbrev RecordPy := Prog RecordCommand Fault Records PyErr

namespace RecordPy

def get (k : String) : RecordPy (Option Record) := awaiting .read fun r => orWrongType (r.get k)

def smembers (k : String) : RecordPy (List String) := awaiting .read fun r => orWrongType (r.smembers k)

def zrangeTo (k : String) (top : ℚ) : RecordPy (List String) := awaiting .read fun r => orWrongType (r.zrangeTo k top)

def set (k : String) (v : Record) : RecordPy Unit := awaiting (.set k v) fun _ => .ok ()

def delete (k : String) : RecordPy Bool := awaiting (.delete k) fun r => .ok (r.existsKey k)

def sadd (k m : String) : RecordPy Unit := awaiting (.sadd k m) fun r => orWrongType ((r.smembers k).map fun _ => ())

def hset (k : String) (fs : List (String × String)) : RecordPy Unit :=
  awaiting (.hset k fs) fun r => orWrongType ((r.hgetall k).map fun _ => ())

def zadd (k : String) (score : ℚ) (m : String) : RecordPy Unit :=
  awaiting (.zadd k score m) fun r => orWrongType ((r.zrange k).map fun _ => ())

def zrem (k m : String) : RecordPy Unit := awaiting (.zrem k m) fun r => orWrongType ((r.zrange k).map fun _ => ())

/-- `time.time()`. -/
def now : RecordPy ℚ := atOnce .clock fun r => r.clock

/-- `model_validate`; the error is a `ValueError`. Its list of the fields at fault is left out. -/
def validate {α : Type} (c : Codec α) (title : String) (data : JsonValue) : RecordPy α :=
  match c.dec data with
  | some a => .ret a
  | none => .raise (.valueError ("validation error for " ++ title))

end RecordPy

namespace BaseRegistry
variable (reg : BaseRegistry)

/-- `_json_loads`; a text that is no JSON and `null` read as `None`. -/
def loadRecord : Record → Option JsonValue
  | .text _ => none
  | .json .null => none
  | .json j => some j

def getRecord (tenantId itemId : String) : RecordPy (Option JsonValue) := do
  let value ← suppressErrors do
    let data ← RecordPy.get (reg.makeKey tenantId itemId)
    pure (data.bind loadRecord)
  pure value.join

def setRecord (tenantId itemId : String) (value : JsonValue) : RecordPy Bool :=
  logExternalErrors do
    RecordPy.set (reg.makeKey tenantId itemId) (.json value)
    RecordPy.sadd (reg.indexKey tenantId) itemId
    RecordPy.sadd reg.tenantsKey tenantId
    pure true

def readModel {α : Type} (c : Codec α) (title tenantId itemId : String) : RecordPy (Option α) := do
  let data ← reg.getRecord tenantId itemId
  match data with
  | none => pure none
  | some data => some <$> RecordPy.validate c title data

/-- The decorated reader of a model: an item that does not validate is an error. -/
def getModel {α : Type} (c : Codec α) (title tenantId itemId : String) : RecordPy (Option α) := do
  let value ← suppressErrors (reg.readModel c title tenantId itemId)
  pure value.join

end BaseRegistry

section
variable (number : ℚ → ℚ) (r : Records)

namespace RecordPy

theorem runWith_set (k : String) (v : Record) :
    (set k v).runWith (RecordCommand.apply number) .ok r = (.ok (), r.touch k fun _ => some (.string v, none)) := by
  rw [set, runWith_awaiting]
  rfl

theorem runWith_delete (k : String) :
    (delete k).runWith (RecordCommand.apply number) .ok r = (.ok (r.existsKey k), r.touch k fun _ => none) := by
  rw [delete, runWith_awaiting]
  rfl

theorem runWith_sadd (k m : String) : (sadd k m).runWith (RecordCommand.apply number) .ok r =
      (orWrongType ((r.smembers k).map fun _ => ()), r.touch k (Keyspace.added m)) := by
  rw [sadd, runWith_awaiting]
  exact congrArg (Prod.mk _) (r.sadd_eq_touch k m)

variable {r} in
theorem runWith_sadd_ok {k : String} (m : String) (h : r.smembers k ≠ none) :
    (sadd k m).runWith (RecordCommand.apply number) .ok r = (.ok (), r.touch k (Keyspace.added m)) := by
  obtain ⟨ms, hms⟩ := Option.ne_none_iff_exists'.mp h
  rw [runWith_sadd, hms]
  rfl

theorem runWith_hset (k : String) (fs : List (String × String)) :
    (hset k fs).runWith (RecordCommand.apply number) .ok r =
      (orWrongType ((r.hgetall k).map fun _ => ()), luaHset r k fs) := by
  rw [hset, runWith_awaiting]
  rfl

theorem runWith_zadd (k : String) (score : ℚ) (m : String) :
    (zadd k score m).runWith (RecordCommand.apply number) .ok r =
      (orWrongType ((r.zrange k).map fun _ => ()), (r.zadd k score m).getD r) := by
  rw [zadd, runWith_awaiting]
  rfl

theorem runWith_get (k : String) :
    (get k).runWith (RecordCommand.apply number) .ok r = (orWrongType (r.get k), r) := by
  rw [get, runWith_awaiting]
  rfl

theorem runWith_smembers (k : String) :
    (smembers k).runWith (RecordCommand.apply number) .ok r = (orWrongType (r.smembers k), r) := by
  rw [smembers, runWith_awaiting]
  rfl

theorem runWith_zrem (k m : String) : (zrem k m).runWith (RecordCommand.apply number) .ok r =
      (orWrongType ((r.zrange k).map fun _ => ()), (r.zrem k m).getD r) := by
  rw [zrem, runWith_awaiting]
  rfl

theorem runWith_zrangeTo (k : String) (top : ℚ) :
    (zrangeTo k top).runWith (RecordCommand.apply number) .ok r = (orWrongType (r.zrangeTo k top), r) := by
  rw [zrangeTo, runWith_awaiting]
  rfl

theorem runWith_now : now.runWith (RecordCommand.apply number) .ok r = (.ok r.clock, r) := rfl

end RecordPy

namespace BaseRegistry
variable (reg : BaseRegistry)
variable {t i : String} {v : JsonValue} {b : Bool} {r' : Records}

theorem runWith_getRecord (t i : String) : (reg.getRecord t i).runWith (RecordCommand.apply number) .ok r =
      (.ok ((r.get (reg.makeKey t i)).bind (Option.bind · loadRecord)), r) := by
  rw [getRecord, Prog.bind_eq, Prog.runWith_bind, runWith_suppressErrors, Prog.bind_eq, Prog.runWith_bind,
    RecordPy.runWith_get]
  cases r.get (reg.makeKey t i) with
  | none => rfl
  | some data => cases data <;> rfl

theorem runWith_getModel {α : Type} (c : Codec α) (title : String) {fields : JsonObj}
    (h : r.get (reg.makeKey t i) = some (some (.json (.obj fields)))) :
    (reg.getModel c title t i).runWith (RecordCommand.apply number) .ok r = (match c.dec (.obj fields) with
        | some a => .ok (some a)
        | none => .error (.valueError ("validation error for " ++ title)), r) := by
  rw [getModel, Prog.bind_eq, Prog.runWith_bind, runWith_suppressErrors, readModel, Prog.bind_eq, Prog.runWith_bind,
    runWith_getRecord, h]
  simp only [Option.bind_some, loadRecord, RecordPy.validate]
  cases c.dec (.obj fields) <;> rfl

theorem runWith_setRecord (v : JsonValue) (hi : r.smembers (reg.indexKey t) ≠ none)
    (ht : r.smembers reg.tenantsKey ≠ none) (hne : reg.makeKey t i ≠ reg.indexKey t) :
    (reg.setRecord t i v).runWith (RecordCommand.apply number) .ok r =
      (.ok true, ((r.touch (reg.makeKey t i) fun _ => some (.string (.json v), none)).touch (reg.indexKey t)
        (Keyspace.added i)).touch reg.tenantsKey (Keyspace.added t)) := by
  rw [setRecord, runWith_logExternalErrors, Prog.bind_eq, Prog.runWith_bind_ok (RecordPy.runWith_set _ _ _ _)]
  rw [Prog.bind_eq, Prog.runWith_bind_ok (RecordPy.runWith_sadd_ok _ _ ?_)]
  · rw [Prog.bind_eq, Prog.runWith_bind_ok (RecordPy.runWith_sadd_ok _ _ ?_)]
    · rfl
    · rw [Keyspace.smembers_touch _ _ _ (reg.indexKey_ne_tenantsKey t).symm,
        Keyspace.smembers_touch _ _ _ (reg.makeKey_ne_tenantsKey t i).symm]
      exact ht
  · rw [Keyspace.smembers_touch _ _ _ hne.symm]
    exact hi

theorem eq_of_setRecord (h : (reg.setRecord t i v).runWith (RecordCommand.apply number) .ok r = (.ok b, r')) :
    r' = ((r.touch (reg.makeKey t i) fun _ => some (.string (.json v), none)).touch (reg.indexKey t)
      (Keyspace.added i)).touch reg.tenantsKey (Keyspace.added t) := by
  obtain ⟨_, _, hset, h⟩ := Prog.runWith_bind_eq_ok.mp (runWith_logExternalErrors_ok h)
  obtain ⟨_, _, hi, h⟩ := Prog.runWith_bind_eq_ok.mp h
  obtain ⟨_, _, ht, h⟩ := Prog.runWith_bind_eq_ok.mp h
  rw [RecordPy.runWith_set] at hset
  obtain rfl := (Prod.mk.inj hset).2
  rw [RecordPy.runWith_sadd] at hi
  obtain rfl := (Prod.mk.inj hi).2
  rw [RecordPy.runWith_sadd] at ht
  obtain rfl := (Prod.mk.inj ht).2
  exact (Prod.mk.inj h).2.symm

theorem get_of_setRecord (h : (reg.setRecord t i v).runWith (RecordCommand.apply number) .ok r = (.ok b, r'))
    (hne : reg.makeKey t i ≠ reg.indexKey t) : r'.get (reg.makeKey t i) = some (some (.json v)) := by
  rw [reg.eq_of_setRecord number r h, Keyspace.get_touch _ _ _ (reg.makeKey_ne_tenantsKey t i),
    Keyspace.get_touch _ _ _ hne, Keyspace.get, Keyspace.entries_touch, if_pos rfl]

end BaseRegistry

end

end AsyncScheduler
