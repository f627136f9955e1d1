import AsyncScheduler.Properties.RecordUpdates

/-!
# Transitions of nodes

Heartbeats and state changes read the record through `get`, which returns a model when the record
validates.
-/

namespace AsyncScheduler
open Keyspace Prog RecordPy List

open JsonValue

namespace NodeRegistry

inductive NodeOp where
  | heartbeat (resources : Option JsonObj)
  | joined (rayNodeIp : String)
  | draining
  | released
  | offline

namespace NodeOp

def program (id : String) : NodeOp → RecordPy Unit
  | .heartbeat resources => do
    let _ ← NodeRegistry.heartbeat id resources
    pure ()
  | .joined rayNodeIp => markJoined id rayNodeIp
  | .draining => markDraining id
  | .released => markReleased id
  | .offline => markOffline id

def sets (now : ℚ) : NodeOp → JsonObj
  | .heartbeat resources => heartbeatFields now resources
  | .joined rayNodeIp => [("state", .str "joined"), ("ray_node_ip", .str rayNodeIp)]
  | .draining => [("state", .str "draining")]
  | .released => [("state", .str "idle"), ("cluster_id", .str "")]
  | .offline => [("state", .str "offline")]

def Marked (id : String) (now : ℚ) (r : Records) : NodeOp → Prop
  | .heartbeat _ => ∃ ms, r.zrange heartbeatZset = some ms ∧ ms.lookup id = some now
  | .released => r.existsKey (leaseKey id) = false
  | .offline => ∃ ms, r.zrange heartbeatZset = some ms ∧ ms.lookup id = none
  | _ => True

end NodeOp

variable (number : ℚ → ℚ)

/-- The operation returns, the record has the fields that it sets and otherwise those it had before. -/
structure Effective (op : NodeOp) (id : String) (fs : JsonObj) (r : Records) : Prop where
  returns : ((op.program id).runWith (RecordCommand.apply number) .ok r).1 = .ok ()
  record : ∃ fs', ((op.program id).runWith (RecordCommand.apply number) .ok r).2.get (nodeKey id) =
      some (some (.json (.obj fs'))) ∧ ∀ n, fs'.lookup n = ((op.sets r.clock).lookup n).or (fs.lookup n)
  marked : op.Marked id r.clock ((op.program id).runWith (RecordCommand.apply number) .ok r).2

/-- A heartbeat that has nothing to change: the record and the heartbeat set are as it would leave them. -/
def UpToDate (op : NodeOp) (id : String) (fs : JsonObj) (r : Records) : Prop :=
  ∃ resources, op = .heartbeat resources ∧ HoldsFields (fs.lookup ·) (op.sets r.clock) ∧ op.Marked id r.clock r

/-- The sets beside the records have their types, as `register` leaves them. -/
structure Editable (r : Records) : Prop where
  index : r.smembers (base.indexKey globalTenant) ≠ none
  tenants : r.smembers base.tenantsKey ≠ none
  heartbeats : ∃ ms, r.zrange heartbeatZset = some ms ∧ (ms.map Prod.fst).Nodup

def stored (r : Records) (id : String) (v : JsonValue) : Records :=
  ((r.touch (nodeKey id) fun _ => some (.string (.json v), none)).touch (base.indexKey globalTenant)
    (Keyspace.added id)).touch base.tenantsKey (Keyspace.added globalTenant)

section
variable (r : Records) (id : String) (v : JsonValue)

theorem nodeKey_inj {id id' : String} (h : nodeKey id = nodeKey id') : id = id' := by
  rw [nodeKey, nodeKey, base.makeKey_eq_makeKey] at h
  simpa only [String.append_assoc, String.append_right_inj] using h

theorem entries_stored {k : String} (hk : k ≠ nodeKey id) (hi : k ≠ base.indexKey globalTenant)
    (ht : k ≠ base.tenantsKey) : (stored r id v).entries k = r.entries k := by
  rw [stored, entries_touch, if_neg ht, entries_touch, if_neg hi, entries_touch,
    if_neg hk]

theorem get_stored_self : (stored r id v).get (nodeKey id) = some (some (.json v)) := by
  have hi : nodeKey id ≠ base.indexKey globalTenant := base.makeKey_globalTenant_ne _ _
  have ht : nodeKey id ≠ base.tenantsKey := base.makeKey_ne_tenantsKey _ _
  rw [stored, get_touch _ _ _ ht, get_touch _ _ _ hi, Keyspace.get, entries_touch,
    if_pos rfl]

theorem get_stored {id' : String} (h : id' ≠ id) : (stored r id v).get (nodeKey id') = r.get (nodeKey id') := by
  rw [Keyspace.get, Keyspace.get, entries_stored]
  · exact fun heq => h (nodeKey_inj heq)
  · exact base.makeKey_globalTenant_ne _ _
  · exact base.makeKey_ne_tenantsKey _ _

theorem entries_heartbeatZset_stored : (stored r id v).entries heartbeatZset = r.entries heartbeatZset := by
  refine entries_stored r id v (nodeKey_ne_heartbeatZset id).symm ?_ (by decide)
  have hz : heartbeatZset = "nodes:" ++ "heartbeat" := by decide
  rw [hz]
  exact append_ne 4 (by decide) (by decide) (by decide) _ _

theorem zrange_stored : (stored r id v).zrange heartbeatZset = r.zrange heartbeatZset := by
  rw [Keyspace.zrange, Keyspace.zrange, entries_heartbeatZset_stored]

variable {r} in
theorem Editable.stored (h : Editable r) : Editable (stored r id v) where
  index := by
    have hk : base.indexKey globalTenant ≠ nodeKey id := (base.makeKey_globalTenant_ne _ _).symm
    rw [NodeRegistry.stored, smembers_touch _ _ _ (base.indexKey_ne_tenantsKey _)]
    refine smembers_touch_added _ _ _ ?_
    rw [smembers_touch _ _ _ hk]
    exact h.index
  tenants := by
    have hk : base.tenantsKey ≠ nodeKey id := (base.makeKey_ne_tenantsKey _ _).symm
    refine smembers_touch_added _ _ _ ?_
    rw [smembers_touch _ _ _ (base.indexKey_ne_tenantsKey _).symm, smembers_touch _ _ _ hk]
    exact h.tenants
  heartbeats := by
    rw [zrange_stored]
    exact h.heartbeats

end

section
variable {number} {r : Records} {id : String} {fs : JsonObj}
variable {node : NodeInfo}

def notAssignable : PyErr := .typeError "'NodeInfo' object does not support item assignment"

theorem runWith_setRecord_node (h : Editable r) (v : JsonValue) :
    (base.setRecord globalTenant id v).runWith (RecordCommand.apply number) .ok r = (.ok true, stored r id v) :=
  base.runWith_setRecord number r v h.index h.tenants (base.makeKey_globalTenant_ne _ _)

section
variable (hrecord : r.get (nodeKey id) = some (some (.json (.obj fs))))
include hrecord

theorem runWith_get_node : (get globalTenant id).runWith (RecordCommand.apply number) .ok r =
    (.ok (some ((NodeInfo.codec.dec (.obj fs)).elim (.raw (.obj fs)) .model)), r) := by
  have hr := base.runWith_getRecord number r globalTenant id
  change r.get (base.makeKey globalTenant id) = _ at hrecord
  rw [hrecord] at hr
  rw [get, bind_eq, runWith_bind_ok hr]
  simp only [Option.bind_some, BaseRegistry.loadRecord, Option.map_some]
  cases NodeInfo.codec.dec (.obj fs) <;> rfl

section
variable (hdec : NodeInfo.codec.dec (.obj fs) = some node)
include hdec

theorem runWith_updateState_model (state : NodeState) (extra : JsonObj) :
    (updateState id state extra).runWith (RecordCommand.apply number) .ok r = (.error notAssignable, r) := by
  rw [updateState, bind_eq, runWith_bind_ok (runWith_get_node hrecord), hdec]
  rfl

theorem runWith_program_model {op : NodeOp} (hop : ∀ resources, op ≠ .heartbeat resources) :
    (op.program id).runWith (RecordCommand.apply number) .ok r = (.error notAssignable, r) := by
  have hf (state : NodeState) (extra : JsonObj) :
      (updateState id state extra).runWith (RecordCommand.apply number) .ok r = (.error notAssignable, r) :=
    runWith_updateState_model hrecord hdec state extra
  cases op with
  | heartbeat resources => exact absurd rfl (hop resources)
  | joined ip => exact hf _ _
  | draining => exact hf _ _
  | released => rw [NodeOp.program, markReleased, bind_eq, runWith_bind, hf]
  | offline => rw [NodeOp.program, markOffline, bind_eq, runWith_bind, hf]

theorem runWith_heartbeat_model (resources : Option JsonObj) :
    (heartbeat id resources).runWith (RecordCommand.apply number) .ok r = (.ok none, r) := by
  rw [heartbeat, runWith_suppressErrors, bind_eq, runWith_bind_ok (runWith_now number r),
    bind_eq, runWith_bind_ok (runWith_get_node hrecord), hdec]
  rfl

end

variable (h : Editable r) (hdec : NodeInfo.codec.dec (.obj fs) = none)
include h hdec

theorem runWith_updateState_raw (state : NodeState) (extra : JsonObj) :
    (updateState id state extra).runWith (RecordCommand.apply number) .ok r =
      (.ok (), stored r id (.obj (assignAll fs (("state", .str state.value) :: extra)))) := by
  rw [updateState, bind_eq, runWith_bind_ok (runWith_get_node hrecord), hdec]
  simp only [Option.elim_none, setItems, bind_eq, ret_bind]
  rw [runWith_bind_ok (runWith_setRecord_node h _)]
  rfl

theorem runWith_heartbeat_raw (resources : Option JsonObj) :
    (heartbeat id resources).runWith (RecordCommand.apply number) .ok r =
      (.ok (some ()),
        ((stored r id (.obj (assignAll fs (heartbeatFields r.clock resources)))).zadd heartbeatZset r.clock id).getD
          (stored r id (.obj (assignAll fs (heartbeatFields r.clock resources))))) := by
  obtain ⟨ms, hms, -⟩ := h.heartbeats
  rw [heartbeat, runWith_suppressErrors, bind_eq, runWith_bind_ok (runWith_now number r),
    bind_eq, runWith_bind_ok (runWith_get_node hrecord), hdec]
  simp only [Option.elim_none, setItems, bind_eq, ret_bind]
  rw [runWith_bind_ok (runWith_setRecord_node h _), runWith_zadd, zrange_stored, hms]
  rfl

theorem runWith_markOffline_raw :
    (markOffline id).runWith (RecordCommand.apply number) .ok r =
      (.ok (), ((stored r id (.obj (assignAll fs [("state", .str "offline")]))).zrem heartbeatZset id).getD
        (stored r id (.obj (assignAll fs [("state", .str "offline")])))) := by
  obtain ⟨ms, hms, -⟩ := h.heartbeats
  rw [markOffline, bind_eq, runWith_bind_ok (runWith_updateState_raw hrecord h hdec _ _), runWith_zrem,
    zrange_stored, hms]
  rfl

theorem runWith_markReleased_raw :
    (markReleased id).runWith (RecordCommand.apply number) .ok r =
      (.ok (), (stored r id (.obj (assignAll fs [("state", .str "idle"), ("cluster_id", .str "")]))).touch (leaseKey id)
        fun _ => none) := by
  rw [markReleased, bind_eq, runWith_bind_ok (runWith_updateState_raw hrecord h hdec _ _), bind_eq,
    runWith_bind_ok (runWith_delete number _ _)]
  rfl

end

theorem nodup_sets (now : ℚ) (op : NodeOp) : ((op.sets now).map Prod.fst).Nodup := by
  cases op with
  | heartbeat resources =>
    match resources with
    | none => simp [NodeOp.sets, heartbeatFields]
    | some [] => simp [NodeOp.sets, heartbeatFields]
    | some (e :: rest) => simp [NodeOp.sets, heartbeatFields]
  | joined ip | draining | released | offline => simp [NodeOp.sets]

theorem lookup_filter_self (ms : List (String × ℚ)) (m : String) : (ms.filter (·.1 ≠ m)).lookup m = none := by
  rw [lookup_filter_key (fun n => n ≠ m)]
  simp

/-- An operation on a record that does not decode takes effect. -/
theorem effective_of_raw (h : Editable r) (hrecord : r.get (nodeKey id) = some (some (.json (.obj fs))))
    (hdec : NodeInfo.codec.dec (.obj fs) = none) (op : NodeOp) : Effective number op id fs r := by
  obtain ⟨ms, hms, -⟩ := h.heartbeats
  have hl := lookup_assignAll fs (nodup_sets r.clock op)
  cases op with
  | heartbeat resources =>
    have hr : ((NodeOp.heartbeat resources).program id).runWith (RecordCommand.apply number) .ok r = _ :=
      runWith_bind_ok (runWith_heartbeat_raw hrecord h hdec resources) _
    refine ⟨congrArg Prod.fst hr, ⟨_, ?_, hl⟩, (id, r.clock) :: ms.filter (·.1 ≠ id), ?_, lookup_cons_self⟩
    · rw [congrArg Prod.snd hr]
      exact (get_zadd _ (nodeKey_ne_heartbeatZset id) _ _).trans (get_stored_self _ _ _)
    · rw [congrArg Prod.snd hr]
      exact zrange_zadd ((zrange_stored _ _ _).trans hms) _ _
  | joined ip =>
    have hr : ((NodeOp.joined ip).program id).runWith (RecordCommand.apply number) .ok r = _ :=
      runWith_updateState_raw hrecord h hdec _ _
    refine ⟨congrArg Prod.fst hr, ⟨_, ?_, hl⟩, trivial⟩
    rw [congrArg Prod.snd hr]
    exact get_stored_self _ _ _
  | draining =>
    have hr : (NodeOp.draining.program id).runWith (RecordCommand.apply number) .ok r = _ :=
      runWith_updateState_raw hrecord h hdec _ _
    refine ⟨congrArg Prod.fst hr, ⟨_, ?_, hl⟩, trivial⟩
    rw [congrArg Prod.snd hr]
    exact get_stored_self _ _ _
  | released =>
    have hr : (NodeOp.released.program id).runWith (RecordCommand.apply number) .ok r = _ :=
      runWith_markReleased_raw hrecord h hdec
    refine ⟨congrArg Prod.fst hr, ⟨_, ?_, hl⟩, ?_⟩
    · rw [congrArg Prod.snd hr, get_touch _ _ _ (nodeKey_ne_leaseKey _ _)]
      exact get_stored_self _ _ _
    · change Keyspace.existsKey _ _ = false
      rw [congrArg Prod.snd hr, Keyspace.existsKey, entries_touch, if_pos rfl]
      rfl
  | offline =>
    have hr : (NodeOp.offline.program id).runWith (RecordCommand.apply number) .ok r = _ :=
      runWith_markOffline_raw hrecord h hdec
    refine ⟨congrArg Prod.fst hr, ⟨_, ?_, hl⟩, _, ?_, lookup_filter_self ms id⟩
    · rw [congrArg Prod.snd hr]
      exact (get_zrem _ (nodeKey_ne_heartbeatZset id) _).trans (get_stored_self _ _ _)
    · rw [congrArg Prod.snd hr]
      exact zrange_zrem ((zrange_stored _ _ _).trans hms) _

theorem holdsFields_iff {sets : JsonObj} (h : (sets.map Prod.fst).Nodup) :
    HoldsFields (fs.lookup ·) sets ↔ ∀ n, fs.lookup n = (sets.lookup n).or (fs.lookup n) := by
  constructor
  · intro hh n
    cases hn : sets.lookup n with
    | none => rfl
    | some j =>
      obtain ⟨before, after, rfl, -⟩ := lookup_eq_some_iff.mp hn
      exact hh (n, j) (mem_append_right before mem_cons_self)
  · intro hs e he
    have hset : sets.lookup e.1 = some e.2 := holdsFields_lookup h e he
    change fs.lookup e.1 = some e.2
    rw [hs, hset]
    rfl

/-- On a record that validates, a state change fails and a heartbeat does nothing. -/
theorem effective_iff_of_model (hrecord : r.get (nodeKey id) = some (some (.json (.obj fs))))
    (hdec : NodeInfo.codec.dec (.obj fs) = some node) (op : NodeOp) :
    Effective number op id fs r ↔ UpToDate op id fs r := by
  by_cases hop : ∃ resources, op = .heartbeat resources
  · obtain ⟨resources, rfl⟩ := hop
    have hru : ((NodeOp.heartbeat resources).program id).runWith (RecordCommand.apply number) .ok r = (.ok (), r) :=
      runWith_bind_ok (runWith_heartbeat_model hrecord hdec resources) _
    constructor
    · intro he
      obtain ⟨fs', hget, hl⟩ := he.record
      have hm := he.marked
      rw [hru] at hget hm
      rw [hrecord] at hget
      obtain rfl := JsonValue.obj.inj (Record.json.inj (Option.some.inj (Option.some.inj hget)))
      exact ⟨resources, rfl, (holdsFields_iff (nodup_sets _ _)).mpr hl, hm⟩
    · rintro ⟨_, _, hh, hm⟩
      constructor
      · rw [hru]
      · rw [hru]
        exact ⟨fs, hrecord, (holdsFields_iff (nodup_sets _ _)).mp hh⟩
      · rw [hru]
        exact hm
  · refine iff_of_false (fun he => ?_) fun hu => hop (hu.imp fun _ h => h.1)
    have hr := he.returns
    rw [runWith_program_model hrecord hdec fun resources heq => hop ⟨resources, heq⟩] at hr
    cases hr

theorem effective_iff (h : Editable r) (hrecord : r.get (nodeKey id) = some (some (.json (.obj fs)))) (op : NodeOp) :
    Effective number op id fs r ↔ NodeInfo.codec.dec (.obj fs) = none ∨ UpToDate op id fs r := by
  cases hdec : NodeInfo.codec.dec (.obj fs) with
  | none => exact iff_of_true (effective_of_raw h hrecord hdec op) (.inl rfl)
  | some node =>
    rw [effective_iff_of_model hrecord hdec op]
    exact ⟨.inr, fun hor => hor.resolve_left (Option.some_ne_none node)⟩

end

section
variable {number} {r : Records} {records : String → JsonObj} {ids : List String}

def Recorded (r : Records) (records : String → JsonObj) (ids : List String) : Prop :=
  ∀ id ∈ ids, r.get (nodeKey id) = some (some (.json (.obj (records id))))

/-- What marking nodes offline leaves. -/
structure MarkedOffline (records : String → JsonObj) (ids : List String) (r r' : Records) : Prop where
  editable : Editable r'
  marked : ∀ id ∈ ids, r'.get (nodeKey id) = some (some (.json (.obj (assignAll (records id) [("state", .str "offline")]))))
  others : ∀ id, id ∉ ids → r'.get (nodeKey id) = r.get (nodeKey id)
  heartbeats : ∃ ms ms', r.zrange heartbeatZset = some ms ∧ r'.zrange heartbeatZset = some ms' ∧
    ∀ id, ms'.lookup id = if id ∈ ids then none else ms.lookup id

theorem markedOffline_one (records : String → JsonObj) (id : String) (h : Editable r) :
    MarkedOffline records [id] r
      (((stored r id (.obj (assignAll (records id) [("state", .str "offline")]))).zrem heartbeatZset id).getD
        (stored r id (.obj (assignAll (records id) [("state", .str "offline")])))) := by
  obtain ⟨ms, hms, hn⟩ := h.heartbeats
  have he := h.stored id (.obj (assignAll (records id) [("state", .str "offline")]))
  have hz := zrange_zrem ((zrange_stored r id (.obj (assignAll (records id) [("state", .str "offline")]))).trans
    hms) id
  have hset (k : String) (hk : k ≠ heartbeatZset) (r₁ : Records) :
      ((r₁.zrem heartbeatZset id).getD r₁).smembers k = r₁.smembers k := by
    rw [Keyspace.smembers, Keyspace.smembers, entries_zrem _ hk]
  have hi : base.indexKey globalTenant ≠ heartbeatZset := by decide
  constructor
  · refine ⟨?_, ?_, _, hz, ?_⟩
    · rw [hset _ hi]
      exact he.index
    · rw [hset _ (by decide)]
      exact he.tenants
    · exact hn.sublist (filter_sublist.map Prod.fst)
  · intro id' hid'
    obtain rfl := mem_singleton.mp hid'
    exact (get_zrem _ (nodeKey_ne_heartbeatZset id') _).trans (get_stored_self _ _ _)
  · intro id' hid'
    have hne : id' ≠ id := fun heq => hid' (mem_singleton.mpr heq)
    exact (get_zrem _ (nodeKey_ne_heartbeatZset id') _).trans (get_stored _ _ _ hne)
  · refine ⟨ms, _, hms, hz, fun id' => ?_⟩
    rw [lookup_filter_key (fun n => n ≠ id)]
    by_cases hid' : id' = id
    · simp [hid']
    · simp [hid']

theorem MarkedOffline.cons {id : String} {r₁ r₂ : Records} (hid : id ∉ ids) (h₁ : MarkedOffline records [id] r r₁)
    (h₂ : MarkedOffline records ids r₁ r₂) : MarkedOffline records (id :: ids) r r₂ where
  editable := h₂.editable
  marked := by
    intro id' hid'
    rcases mem_cons.mp hid' with rfl | hin
    · rw [h₂.others id' hid]
      exact h₁.marked id' (mem_singleton_self id')
    · exact h₂.marked id' hin
  others := by
    intro id' hid'
    rw [mem_cons, not_or] at hid'
    rw [h₂.others id' hid'.2, h₁.others id' (fun hin => hid'.1 (mem_singleton.mp hin))]
  heartbeats := by
    obtain ⟨ms, ms₁, hms, hms₁, hl₁⟩ := h₁.heartbeats
    obtain ⟨ms₁', ms₂, hms₁', hms₂, hl₂⟩ := h₂.heartbeats
    obtain rfl := Option.some.inj (hms₁.symm.trans hms₁')
    refine ⟨ms, ms₂, hms, hms₂, fun id' => ?_⟩
    rw [hl₂, hl₁]
    by_cases hin : id' ∈ ids
    · simp [hin]
    · simp [hin, mem_cons]

theorem runWith_markAllOffline_raw (h : Editable r) (hn : ids.Nodup) (hr : Recorded r records ids)
    (hra : ∀ id ∈ ids, NodeInfo.codec.dec (.obj (records id)) = none) :
    ∃ r', (markAllOffline ids).runWith (RecordCommand.apply number) .ok r = (.ok (), r') ∧ MarkedOffline records ids r r' := by
  induction ids generalizing r with
  | nil =>
    obtain ⟨ms, hms, -⟩ := h.heartbeats
    exact ⟨r, rfl, h, fun id hid => absurd hid not_mem_nil, fun _ _ => rfl, ms, ms, hms, hms, fun _ => rfl⟩
  | cons id ids ih =>
    obtain ⟨hid, hre⟩ := nodup_cons.mp hn
    have ho := markedOffline_one records id h
    have hru : (markOffline id).runWith (RecordCommand.apply number) .ok r = _ :=
      runWith_markOffline_raw (hr id mem_cons_self) h (hra id mem_cons_self)
    obtain ⟨r', hr', hm⟩ := ih ho.editable hre
      (fun id' hid' => (ho.others id' fun hin => hid (mem_singleton.mp hin ▸ hid')).trans
        (hr id' (mem_cons_of_mem id hid')))
      (fun id' hid' => hra id' (mem_cons_of_mem id hid'))
    refine ⟨r', ?_, ho.cons hid hm⟩
    rw [markAllOffline, bind_eq, runWith_bind_ok hru, hr']

theorem runWith_markAllOffline_model (h : Editable r) (hn : ids.Nodup) (hr : Recorded r records ids)
    (hm : ∃ id ∈ ids, NodeInfo.codec.dec (.obj (records id)) ≠ none) :
    ∃ r', (markAllOffline ids).runWith (RecordCommand.apply number) .ok r = (.error notAssignable, r') := by
  induction ids generalizing r with
  | nil =>
    obtain ⟨id, hid, -⟩ := hm
    exact absurd hid not_mem_nil
  | cons id ids ih =>
    obtain ⟨hid, hre⟩ := nodup_cons.mp hn
    have hrecord := hr id mem_cons_self
    cases hdec : NodeInfo.codec.dec (.obj (records id)) with
    | some node =>
      refine ⟨r, ?_⟩
      have hf : (updateState id .offline []).runWith (RecordCommand.apply number) .ok r = _ :=
        runWith_updateState_model hrecord hdec .offline []
      rw [markAllOffline, bind_eq, runWith_bind, markOffline, bind_eq, runWith_bind, hf]
    | none =>
      have ho := markedOffline_one records id h
      have hru : (markOffline id).runWith (RecordCommand.apply number) .ok r = _ := runWith_markOffline_raw hrecord h hdec
      obtain ⟨id', hid', hm'⟩ := hm
      have hl : id' ∈ ids := by
        rcases mem_cons.mp hid' with rfl | hin
        · exact absurd hdec hm'
        · exact hin
      obtain ⟨r', hr'⟩ := ih ho.editable hre
        (fun id'' hid'' => (ho.others id'' fun hin => hid (mem_singleton.mp hin ▸ hid'')).trans
          (hr id'' (mem_cons_of_mem id hid'')))
        ⟨id', hl, hm'⟩
      refine ⟨r', ?_⟩
      rw [markAllOffline, bind_eq, runWith_bind_ok hru, hr']

def deadNodes (r : Records) (timeout : ℚ) : List String := (r.zrangeTo heartbeatZset (r.clock - timeout)).getD []

theorem zrangeTo_eq_deadNodes (h : Editable r) (timeout : ℚ) :
    r.zrangeTo heartbeatZset (r.clock - timeout) = some (deadNodes r timeout) := by
  obtain ⟨ms, hms, -⟩ := h.heartbeats
  simp [deadNodes, Keyspace.zrangeTo, hms]

theorem nodup_deadNodes (h : Editable r) (timeout : ℚ) : (deadNodes r timeout).Nodup := by
  obtain ⟨ms, hms, hn⟩ := h.heartbeats
  simp only [deadNodes, Keyspace.zrangeTo, hms, Option.map_some, Option.getD_some]
  refine (List.Perm.map Prod.fst (perm_insertionSort _ _)).nodup_iff.mpr ?_
  exact hn.sublist (filter_sublist.map Prod.fst)

variable (number) in
/-- The call returns the dead nodes, each has the state offline and its other fields, and no other node
is changed. -/
structure DetectEffective (timeout : ℚ) (records : String → JsonObj) (r : Records) : Prop where
  returns : ((detectDeadNodes timeout).runWith (RecordCommand.apply number) .ok r).1 = .ok (some (deadNodes r timeout))
  marked : ∀ id ∈ deadNodes r timeout, ∃ fs',
    ((detectDeadNodes timeout).runWith (RecordCommand.apply number) .ok r).2.get (nodeKey id) =
      some (some (.json (.obj fs'))) ∧
    ∀ n, fs'.lookup n = if n = "state" then some (.str "offline") else (records id).lookup n
  others : ∀ id, id ∉ deadNodes r timeout →
    ((detectDeadNodes timeout).runWith (RecordCommand.apply number) .ok r).2.get (nodeKey id) = r.get (nodeKey id)

theorem runWith_detectDeadNodes (h : Editable r) (timeout : ℚ) :
    (detectDeadNodes timeout).runWith (RecordCommand.apply number) .ok r =
      (match ((markAllOffline (deadNodes r timeout)).runWith (RecordCommand.apply number) .ok r).1 with
        | .ok _ => .ok (some (deadNodes r timeout))
        | .error e => if e.isException && !e.isBusiness then .ok none else .error e,
        ((markAllOffline (deadNodes r timeout)).runWith (RecordCommand.apply number) .ok r).2) := by
  have hr : (RecordPy.zrangeTo heartbeatZset (r.clock - timeout)).runWith (RecordCommand.apply number) .ok r =
      (.ok (deadNodes r timeout), r) := by
    rw [runWith_zrangeTo, zrangeTo_eq_deadNodes h]
    rfl
  rw [detectDeadNodes, runWith_suppressErrors, bind_eq, runWith_bind_ok (runWith_now number r),
    bind_eq, runWith_bind_ok hr, bind_eq, runWith_bind]
  match (markAllOffline (deadNodes r timeout)).runWith (RecordCommand.apply number) .ok r with
  | (.ok _, r') => rfl
  | (.error e, r') => rfl

theorem detectEffective_iff (h : Editable r) {timeout : ℚ} (hr : Recorded r records (deadNodes r timeout)) :
    DetectEffective number timeout records r ↔
      ∀ id ∈ deadNodes r timeout, NodeInfo.codec.dec (.obj (records id)) = none := by
  have hn := nodup_deadNodes h timeout
  have hru : (detectDeadNodes timeout).runWith (RecordCommand.apply number) .ok r = _ := runWith_detectDeadNodes h timeout
  constructor
  · intro he
    by_contra hmo
    push Not at hmo
    obtain ⟨r', hf⟩ : ∃ r', (markAllOffline (deadNodes r timeout)).runWith (RecordCommand.apply number) .ok r =
        (.error notAssignable, r') := runWith_markAllOffline_model h hn hr hmo
    have hre := he.returns
    rw [hru, hf] at hre
    cases hre
  · intro hra
    obtain ⟨r', hm, hma⟩ : ∃ r', (markAllOffline (deadNodes r timeout)).runWith (RecordCommand.apply number) .ok r =
        (.ok (), r') ∧ _ := runWith_markAllOffline_raw h hn hr hra
    constructor
    · rw [hru, hm]
    · intro id hid
      refine ⟨_, ?_, fun n => lookup_assign _ _ _ n⟩
      rw [hru, hm]
      exact hma.marked id hid
    · intro id hid
      rw [hru, hm]
      exact hma.others id hid

end

/-- Heartbeats and state changes take effect on a stored object exactly if it is no valid node, apart from
a heartbeat that has nothing to change; the detection of dead nodes exactly if none of them is valid. What
`register` stores is valid. -/
theorem node_transitions_effective_iff (number : ℚ → ℚ) {r : Records} (h : Editable r) :
    (∀ id fs op, r.get (nodeKey id) = some (some (.json (.obj fs))) →
      (Effective number op id fs r ↔ NodeInfo.codec.dec (.obj fs) = none ∨ UpToDate op id fs r)) ∧
    (∀ timeout records, Recorded r records (deadNodes r timeout) →
      (DetectEffective number timeout records r ↔
        ∀ id ∈ deadNodes r timeout, NodeInfo.codec.dec (.obj (records id)) = none)) ∧
    (∀ n, Registered r n → ∀ op,
      (Effective number op n.nodeId (NodeInfo.fields.enc n.parts) r ↔ UpToDate op n.nodeId (NodeInfo.fields.enc n.parts) r)) := by
  refine ⟨?_, ?_, ?_⟩
  · intro id fs op hrecord
    exact effective_iff h hrecord op
  · intro timeout records hr
    exact detectEffective_iff h hr
  · intro n hn op
    exact effective_iff_of_model hn (Codec.Lawful.dec_enc n) op

/-- After a reservation the empty list of devices is an empty object; the node can then be marked. -/
theorem node_transitions_effective_reserved :
    let r := ((register { nodeId := "n1" }).runWith (RecordCommand.apply id) .ok Keyspace.empty).2
    let r' := ((reserveNode id 30000 "n1" "c1").runWith (RecordCommand.apply id) .ok r).2
    let reserved : NodeInfo := { nodeId := "n1", state := .reserved, clusterId := "c1" }
    Effective id (.joined "10.0.0.1") "n1" (reencodeFields id (NodeInfo.fields.enc reserved.parts)) r' := by
  intro r r' reserved
  have he : Editable r' :=
    ⟨by decide +kernel, by decide +kernel, [("n1", 0)], by decide +kernel, List.nodup_singleton "n1"⟩
  refine ((node_transitions_effective_iff id he).1 "n1" _ (.joined "10.0.0.1") ?_).mpr (.inl ?_)
  · decide +kernel
  · decide +kernel

/-- A registered node cannot be marked as draining. -/
theorem registered_node_not_marked :
    let r := ((register { nodeId := "n1" }).runWith (RecordCommand.apply id) .ok Keyspace.empty).2
    ((markDraining "n1").runWith (RecordCommand.apply id) .ok r).1 =
        .error (.typeError "'NodeInfo' object does not support item assignment") ∧
      ((getNode "n1").runWith (RecordCommand.apply id) .ok ((markDraining "n1").runWith (RecordCommand.apply id) .ok r).2).1 =
        .ok (some { nodeId := "n1" }) := by
  exact ⟨rfl, rfl⟩

end NodeRegistry

end AsyncScheduler
