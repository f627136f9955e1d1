import AsyncScheduler.Platform.ClusterRegistry
import AsyncScheduler.Platform.NodeRegistry

/-!
# Updates in place

A script that changes one field of a record encodes the whole record again.
-/

namespace AsyncScheduler
open Fields Prog Keyspace

variable {fs : JsonObj}

open JsonValue

variable (number : ℚ → ℚ)

theorem CapabilityInfo.stable_healthStatus (cap : CapabilityInfo) (s : HealthStatus) :
    (codec.enc { cap with healthStatus := s }).Stable number ↔ (codec.enc cap).Stable number := by
  rfl

theorem CapabilityInfo.healthStatus_of_dec {cap : CapabilityInfo} {s : HealthStatus}
    (h : codec.dec (.obj fs) = some cap) (hs : fs.lookup "health_status" = some (.str s.value)) :
    cap.healthStatus = s := by
  obtain ⟨b, hb, hbu⟩ := Option.bind_eq_some_iff.mp h
  obtain rfl := Option.some.inj hbu
  have hst := dec_head (dec_rest (dec_rest (dec_rest (dec_rest (dec_rest (dec_rest (dec_rest hb))))))) hs
  change HealthStatus.codec.dec (HealthStatus.codec.enc s) = _ at hst
  rw [Codec.Lawful.dec_enc] at hst
  exact (Option.some.inj hst).symm

theorem ClusterInfo.stable_status (c : ClusterInfo) (s : ClusterStatus) :
    (codec.enc { c with status := s }).Stable number ↔ (codec.enc c).Stable number := by
  rfl

theorem ClusterInfo.status_of_dec {c : ClusterInfo} {s : ClusterStatus}
    (h : codec.dec (.obj fs) = some c) (hs : fs.lookup "status" = some (.str s.value)) : c.status = s := by
  obtain ⟨b, hb, hbu⟩ := Option.bind_eq_some_iff.mp h
  obtain rfl := Option.some.inj hbu
  have hst := dec_head (dec_rest (dec_rest (dec_rest (dec_rest (dec_rest (dec_rest hb)))))) hs
  change ClusterStatus.codec.dec (ClusterStatus.codec.enc s) = _ at hst
  rw [Codec.Lawful.dec_enc] at hst
  exact (Option.some.inj hst).symm

theorem NodeInfo.stable_reserved (n : NodeInfo) (cid : String) :
    (codec.enc { n with state := .reserved, clusterId := cid }).Stable number ↔ (codec.enc n).Stable number := by
  rfl

theorem NodeInfo.reserved_of_dec {n : NodeInfo} {cid : String}
    (h : codec.dec (.obj fs) = some n) (hs : fs.lookup "state" = some (.str "reserved"))
    (hci : fs.lookup "cluster_id" = some (.str cid)) : n.state = .reserved ∧ n.clusterId = cid := by
  obtain ⟨b, hb, hbu⟩ := Option.bind_eq_some_iff.mp h
  obtain rfl := Option.some.inj hbu
  have ht := dec_rest (dec_rest (dec_rest hb))
  have hc := dec_head (dec_rest (dec_rest (dec_rest (dec_rest ht)))) hci
  have hr := dec_head ht hs
  change NodeState.codec.dec (NodeState.codec.enc .reserved) = _ at hr
  rw [Codec.Lawful.dec_enc] at hr
  exact ⟨(Option.some.inj hr).symm, (Option.some.inj hc).symm⟩

theorem reads_reencoded_iff {α : Type} (c : Codec α) [c.Lawful] {e : PyErr} {same : α → Prop} {a : α} (ha : same a)
    (hu : ∀ b, c.dec ((c.enc a).reencode number) = some b → same b → b = a) :
    (∃ b, (match c.dec ((c.enc a).reencode number) with
        | some b => Except.ok (some b)
        | none => Except.error e) = Except.ok (some b) ∧ same b) ↔ (c.enc a).Stable number := by
  rw [← c.dec_reencode_iff number a]
  constructor
  · rintro ⟨b, hr, hb⟩
    split at hr
    · next b' hd =>
      obtain rfl := Option.some.inj (Except.ok.inj hr)
      rw [hd, hu _ hd hb]
    · cases hr
  · intro hd
    exact ⟨a, by rw [hd], ha⟩

namespace CapabilityRegistry
variable {r : Records} {cap : CapabilityInfo}

/-- The record of the capability and its health counters are as `register` and `update_health` leave them. -/
structure Registered (r : Records) (cap : CapabilityInfo) : Prop where
  record : r.get (capKey cap.capabilityName) = some (some (.json (CapabilityInfo.codec.enc cap)))
  health : ∃ fs, ∃ s : HealthStatus, r.hgetall (healthKey cap.capabilityName) = some fs ∧
    (fs.lookup "status").getD "healthy" = s.value ∧
    (tonumber ((fs.lookup "consec_ok").getD "0")).isSome ∧ (tonumber ((fs.lookup "consec_fail").getD "0")).isSome

theorem capKey_ne_healthKey (name name' : String) : capKey name ≠ healthKey name' :=
  append_ne 10 (by decide) (by decide) (by decide) _ _

theorem capKey_ne_capIndex (name : String) : capKey name ≠ capIndex := by
  have hi : capIndex = "capabilities:" ++ "all" := by decide
  rw [hi]
  exact append_ne 9 (by decide) (by decide) (by decide) _ _

theorem nextCounters_isSome (ok : Bool) {consecOk consecFail : Option Int} (hok : consecOk.isSome)
    (hf : consecFail.isSome) : ∃ n m, nextCounters ok consecOk consecFail = some (n, m) := by
  obtain ⟨a, rfl⟩ := Option.isSome_iff_exists.mp hok
  obtain ⟨b, rfl⟩ := Option.isSome_iff_exists.mp hf
  cases ok
  · exact ⟨0, b + 1, rfl⟩
  · exact ⟨a + 1, 0, rfl⟩

theorem nextStatus_value (s : HealthStatus) (n m u h : Int) : ∃ s' : HealthStatus, nextStatus s.value n m u h = s'.value := by
  unfold nextStatus
  split
  · exact ⟨.healthy, rfl⟩
  split
  · exact ⟨.degraded, rfl⟩
  split
  · exact ⟨.unhealthy, rfl⟩
  · exact ⟨s, rfl⟩

section
variable (h : Registered r cap) (ok : Bool) (u ht : Int)
include h

theorem luaUpdateHealth_record :
    ∃ s : HealthStatus, ((luaUpdateHealth number (healthKey cap.capabilityName) (capKey cap.capabilityName) ok u ht r).2).get
        (capKey cap.capabilityName) =
      some (some (.json ((CapabilityInfo.codec.enc { cap with healthStatus := s }).reencode number))) := by
  obtain ⟨fs, s, hh, hs, hok, hf⟩ := h.health
  obtain ⟨n, m, hc⟩ := nextCounters_isSome ok hok hf
  obtain ⟨s', hs'⟩ := nextStatus_value s n m u ht
  refine ⟨s', ?_⟩
  simp only [luaUpdateHealth, hh, hc, hs, hs']
  have hr (counters : List (String × String)) :
      (luaHset r (healthKey cap.capabilityName) counters).get (capKey cap.capabilityName) =
        some (some (.json (.obj (CapabilityInfo.fields.enc cap.parts)))) := by
    rw [get_luaHset (capKey_ne_healthKey _ _)]
    exact h.record
  rw [luaDecode_obj (hr _)]
  exact get_luaStore_self number _ _ _

theorem updateHealth_record :
    ∃ s : HealthStatus, (((updateHealth number cap.capabilityName ok u ht).runWith (RecordCommand.apply number) .ok r).2).get
        (capKey cap.capabilityName) =
      some (some (.json ((CapabilityInfo.codec.enc { cap with healthStatus := s }).reencode number))) := by
  obtain ⟨s, hs⟩ := luaUpdateHealth_record number h ok u ht
  refine ⟨s, ?_⟩
  rw [updateHealth, runWith_logExternalErrors, bind_eq, runWith_bind, runUpdateHealth, runWith_awaiting]
  rw [← hs]
  cases (luaUpdateHealth number (healthKey cap.capabilityName) (capKey cap.capabilityName) ok u ht r).1 with
  | error e => rfl
  | ok status =>
    simp only [healthStatus]
    cases HealthStatus.codec.dec (.str status) <;> rfl

def ReadsBack (r : Records) (cap : CapabilityInfo) : Prop :=
  ∃ cap', ((getCapability cap.capabilityName).runWith (RecordCommand.apply number) .ok r).1 = .ok (some cap') ∧
    { cap' with healthStatus := cap.healthStatus } = cap

theorem readsBack_updateHealth_iff :
    ReadsBack number ((updateHealth number cap.capabilityName ok u ht).runWith (RecordCommand.apply number) .ok r).2 cap ↔
      (CapabilityInfo.codec.enc cap).Stable number := by
  obtain ⟨s, hs⟩ := updateHealth_record number h ok u ht
  rw [ReadsBack, getCapability, base.runWith_getModel number _ _ _ hs, ← CapabilityInfo.stable_healthStatus number cap s]
  refine reads_reencoded_iff number CapabilityInfo.codec (a := { cap with healthStatus := s }) rfl fun read hd hsa => ?_
  have hh : read.healthStatus = s := CapabilityInfo.healthStatus_of_dec hd rfl
  calc read = { ({ read with healthStatus := cap.healthStatus } : CapabilityInfo) with healthStatus := read.healthStatus } := rfl
    _ = { cap with healthStatus := s } := by rw [hsa, hh]

end

theorem registered_register {r' : Records}
    (h : (register cap).runWith (RecordCommand.apply number) .ok r = (.ok (), r')) : Registered r' cap := by
  obtain ⟨_, r₁, hset, h⟩ := runWith_bind_eq_ok.mp (runWith_logExternalErrors_ok h)
  obtain ⟨_, r₂, hi, h⟩ := runWith_bind_eq_ok.mp h
  have hre := base.get_of_setRecord number r hset (base.makeKey_globalTenant_ne _ _)
  rw [RecordPy.runWith_sadd] at hi
  rw [RecordPy.runWith_hset] at h
  obtain ⟨hr, rfl⟩ := Prod.mk.inj h
  obtain rfl := (Prod.mk.inj hi).2
  constructor
  · rw [get_luaHset (capKey_ne_healthKey _ _), get_touch _ _ _ (capKey_ne_capIndex _)]
    exact hre
  · match hh : (r₁.touch capIndex (Keyspace.added cap.capabilityName)).hgetall (healthKey cap.capabilityName) with
    | none =>
      rw [hh] at hr
      cases hr
    | some fs =>
      obtain ⟨fs', hfs', hl⟩ := hgetall_luaHset hh
        [("status", cap.healthStatus.value), ("consec_ok", "0"), ("consec_fail", "0")]
      refine ⟨fs', cap.healthStatus, hfs', ?_⟩
      rw [hl, hl, hl]
      have hz : (tonumber "0").isSome := by decide
      exact ⟨rfl, hz, hz⟩

end CapabilityRegistry

namespace ClusterRegistry
variable {r : Records} {c : ClusterInfo}

def Registered (r : Records) (c : ClusterInfo) : Prop :=
  r.get (clusterKey c.clusterId) = some (some (.json (ClusterInfo.codec.enc c)))

theorem runUpdate_eq (h : Registered r c) (fields : JsonObj) :
    (runUpdate number c.clusterId fields).runWith (RecordCommand.apply number) .ok r =
      (.ok (), luaStore number r (clusterKey c.clusterId) (assignAll (ClusterInfo.fields.enc c.parts) fields)) := by
  have hd : luaDecode r (clusterKey c.clusterId) = .ok (some (ClusterInfo.fields.enc c.parts)) := luaDecode_obj h
  have hr : luaUpdateCluster number (clusterKey c.clusterId) fields r =
      (.ok (), luaStore number r (clusterKey c.clusterId) (assignAll (ClusterInfo.fields.enc c.parts) fields)) := by
    rw [luaUpdateCluster, hd]
  rw [runUpdate, runWith_logExternalErrors, runWith_awaiting, hr]
  refine Prod.ext rfl ?_
  change (luaUpdateCluster number (clusterKey c.clusterId) fields r).2 = _
  rw [hr]

def ReadsBack (r : Records) (c : ClusterInfo) : Prop :=
  ∃ c', ((getCluster c.clusterId).runWith (RecordCommand.apply number) .ok r).1 = .ok (some c') ∧
    { c' with status := c.status } = c

theorem readsBack_updateStatus_iff (h : Registered r c) (s : ClusterStatus) :
    ReadsBack number ((updateStatus number c.clusterId s).runWith (RecordCommand.apply number) .ok r).2 c ↔
      (ClusterInfo.codec.enc c).Stable number := by
  have hr : ((updateStatus number c.clusterId s).runWith (RecordCommand.apply number) .ok r).2.get
      (clusterKey c.clusterId) = some (some (.json ((ClusterInfo.codec.enc { c with status := s }).reencode number))) := by
    rw [updateStatus, runUpdate_eq number h]
    exact get_luaStore_self number _ _ _
  rw [ReadsBack, getCluster, base.runWith_getModel number _ _ _ hr, ← ClusterInfo.stable_status number c s]
  refine reads_reencoded_iff number ClusterInfo.codec (a := { c with status := s }) rfl fun read hd hs => ?_
  have hst : read.status = s := ClusterInfo.status_of_dec hd rfl
  calc read = { ({ read with status := c.status } : ClusterInfo) with status := read.status } := rfl
    _ = { c with status := s } := by rw [hs, hst]

theorem clusterKey_ne_clusterIndex (id : String) : clusterKey id ≠ clusterIndex := by
  have hi : clusterIndex = "clusters:" ++ "all" := by decide
  rw [hi]
  exact append_ne 7 (by decide) (by decide) (by decide) _ _

theorem registered_register {r' : Records}
    (h : (register c).runWith (RecordCommand.apply number) .ok r = (.ok (), r')) : Registered r' c := by
  obtain ⟨_, r₁, hset, h⟩ := runWith_bind_eq_ok.mp (runWith_logExternalErrors_ok h)
  have hr := base.get_of_setRecord number r hset (base.makeKey_globalTenant_ne _ _)
  rw [RecordPy.runWith_sadd] at h
  obtain rfl := (Prod.mk.inj h).2
  rw [Registered, get_touch _ _ _ (clusterKey_ne_clusterIndex _)]
  exact hr

end ClusterRegistry

namespace NodeRegistry
variable {n : NodeInfo} {r : Records}

def Registered (r : Records) (n : NodeInfo) : Prop :=
  r.get (nodeKey n.nodeId) = some (some (.json (NodeInfo.codec.enc n)))

theorem nodeKey_ne_leaseKey (id id' : String) : nodeKey id ≠ leaseKey id' :=
  append_ne 4 (by decide) (by decide) (by decide) _ _

theorem lookup_state (n : NodeInfo) : (NodeInfo.fields.enc n.parts).lookup "state" = some (.str n.state.value) := by
  rfl

theorem value_eq_idle {s : NodeState} : some (JsonValue.str s.value) = some (.str "idle") ↔ s = .idle := by
  cases s <;> decide

theorem state_reserveNode (ttl : Int) (id cid : String) (r : Records) :
    ((reserveNode number ttl id cid).runWith (RecordCommand.apply number) .ok r).2 =
      (luaReserve number (nodeKey id) (leaseKey id) cid ttl r).2 := by
  rw [reserveNode, runWith_logExternalErrors, bind_eq, runWith_bind, runWith_awaiting]
  cases (luaReserve number (nodeKey id) (leaseKey id) cid ttl r).1 <;> rfl

def ReadsBack (r : Records) (n : NodeInfo) : Prop :=
  ∃ n', ((getNode n.nodeId).runWith (RecordCommand.apply number) .ok r).1 = .ok (some n') ∧
    { n' with state := n.state, clusterId := n.clusterId } = n

theorem readsBack_self (h : Registered r n) : ReadsBack number r n := by
  have hd : NodeInfo.codec.dec (.obj (NodeInfo.fields.enc n.parts)) = some n := Codec.Lawful.dec_enc n
  refine ⟨n, ?_, rfl⟩
  rw [getNode, base.runWith_getModel number _ _ _ h, hd]

/-- A reservation keeps a node readable unless it is idle with a record that is not stable. -/
theorem readsBack_reserveNode_iff (h : Registered r n) (ttl : Int) (cid : String) :
    ReadsBack number ((reserveNode number ttl n.nodeId cid).runWith (RecordCommand.apply number) .ok r).2 n ↔
      n.state ≠ .idle ∨ (NodeInfo.codec.enc n).Stable number := by
  have hd : luaDecode r (nodeKey n.nodeId) = .ok (some (NodeInfo.fields.enc n.parts)) := luaDecode_obj h
  rw [state_reserveNode]
  by_cases hi : n.state = .idle
  · have hr : (luaReserve number (nodeKey n.nodeId) (leaseKey n.nodeId) cid ttl r).2.get (nodeKey n.nodeId) =
        some (some (.json ((NodeInfo.codec.enc { n with state := .reserved, clusterId := cid }).reencode number))) := by
      rw [luaReserve, hd]
      dsimp only
      rw [lookup_state, if_neg (not_not.mpr (value_eq_idle.mpr hi))]
      rw [get_expire _ (nodeKey_ne_leaseKey _ _), set_eq_touch, get_touch _ _ _ (nodeKey_ne_leaseKey _ _)]
      exact get_luaStore_self number _ _ _
    rw [ReadsBack, getNode, base.runWith_getModel number _ _ _ hr, ← NodeInfo.stable_reserved number n cid]
    rw [or_iff_right (not_not.mpr hi)]
    refine reads_reencoded_iff number NodeInfo.codec (a := { n with state := .reserved, clusterId := cid }) rfl
      fun read hde hs => ?_
    obtain ⟨hst, hc⟩ : read.state = .reserved ∧ read.clusterId = cid := NodeInfo.reserved_of_dec hde rfl rfl
    calc read = { ({ read with state := n.state, clusterId := n.clusterId } : NodeInfo) with
          state := read.state, clusterId := read.clusterId } := rfl
      _ = { n with state := .reserved, clusterId := cid } := by rw [hs, hst, hc]
  · have hr : (luaReserve number (nodeKey n.nodeId) (leaseKey n.nodeId) cid ttl r).2 = r := by
      rw [luaReserve, hd]
      dsimp only
      rw [lookup_state, if_pos (fun heq => hi (value_eq_idle.mp heq))]
    rw [hr]
    exact iff_of_true (readsBack_self number h) (.inl hi)

theorem nodeKey_ne_nodeIndexKey (id : String) : nodeKey id ≠ nodeIndexKey := by
  have hi : nodeIndexKey = "nodes:" ++ "all" := by decide
  rw [hi]
  exact append_ne 4 (by decide) (by decide) (by decide) _ _

theorem nodeKey_ne_heartbeatZset (id : String) : nodeKey id ≠ heartbeatZset := by
  have hz : heartbeatZset = "nodes:" ++ "heartbeat" := by decide
  rw [hz]
  exact append_ne 4 (by decide) (by decide) (by decide) _ _

theorem registered_register {r' : Records}
    (h : (register n).runWith (RecordCommand.apply number) .ok r = (.ok (), r')) :
    Registered r' { n with lastHeartbeat := r.clock } := by
  obtain ⟨_, _, hn, h⟩ := runWith_bind_eq_ok.mp (runWith_logExternalErrors_ok h)
  obtain ⟨hc, rfl⟩ := Prod.mk.inj hn
  obtain rfl := Except.ok.inj hc
  obtain ⟨_, r₁, hset, h⟩ := runWith_bind_eq_ok.mp h
  obtain ⟨_, r₂, hi, h⟩ := runWith_bind_eq_ok.mp h
  have hr := base.get_of_setRecord number r hset (base.makeKey_globalTenant_ne _ _)
  rw [RecordPy.runWith_sadd] at hi
  obtain rfl := (Prod.mk.inj hi).2
  rw [RecordPy.runWith_zadd] at h
  obtain rfl := (Prod.mk.inj h).2
  rw [Registered, get_zadd _ (nodeKey_ne_heartbeatZset _), get_touch _ _ _ (nodeKey_ne_nodeIndexKey _)]
  exact hr

end NodeRegistry

/-- After an update in place the record reads as before, apart from what was updated, exactly if it has
no empty list anywhere and the script prints each of its numbers in full; a node that is not idle is
not updated. -/
theorem update_in_place_readable_iff :
    (∀ r cap, CapabilityRegistry.Registered r cap → ∀ success unhealthy healthy,
      (CapabilityRegistry.ReadsBack number ((CapabilityRegistry.updateHealth number cap.capabilityName success unhealthy
        healthy).runWith (RecordCommand.apply number) .ok r).2 cap ↔ (CapabilityInfo.codec.enc cap).Stable number)) ∧
    (∀ r c, ClusterRegistry.Registered r c → ∀ status,
      (ClusterRegistry.ReadsBack number ((ClusterRegistry.updateStatus number c.clusterId status).runWith
        (RecordCommand.apply number) .ok r).2 c ↔ (ClusterInfo.codec.enc c).Stable number)) ∧
    (∀ r n, NodeRegistry.Registered r n → ∀ ttl clusterId,
      (NodeRegistry.ReadsBack number ((NodeRegistry.reserveNode number ttl n.nodeId clusterId).runWith
        (RecordCommand.apply number) .ok r).2 n ↔ n.state ≠ .idle ∨ (NodeInfo.codec.enc n).Stable number)) := by
  refine ⟨?_, ?_, ?_⟩
  · intro r cap hca success unhealthy healthy
    exact CapabilityRegistry.readsBack_updateHealth_iff number hca success unhealthy healthy
  · intro r c hc status
    exact ClusterRegistry.readsBack_updateStatus_iff number hc status
  · intro r n hn ttl clusterId
    exact NodeRegistry.readsBack_reserveNode_iff number hn ttl clusterId

theorem update_in_place_readable_tagged :
    let cap : CapabilityInfo := { capabilityName := "ocr", tags := ["text"] }
    let c : ClusterInfo := { clusterId := "c1", capabilities := ["ocr"] }
    let n : NodeInfo := { nodeId := "n1", resources := { gpuList := [{}] } }
    let r := ((CapabilityRegistry.register cap).runWith (RecordCommand.apply id) .ok Keyspace.empty).2
    let r' := ((ClusterRegistry.register c).runWith (RecordCommand.apply id) .ok Keyspace.empty).2
    let r'' := ((NodeRegistry.register n).runWith (RecordCommand.apply id) .ok Keyspace.empty).2
    CapabilityRegistry.ReadsBack id ((CapabilityRegistry.updateHealth id "ocr" false 3 2).runWith
        (RecordCommand.apply id) .ok r).2 cap ∧
      ClusterRegistry.ReadsBack id ((ClusterRegistry.updateStatus id "c1" .draining).runWith
        (RecordCommand.apply id) .ok r').2 c ∧
      NodeRegistry.ReadsBack id ((NodeRegistry.reserveNode id 30000 "n1" "c1").runWith
        (RecordCommand.apply id) .ok r'').2 n := by
  intro cap c n r r' r''
  obtain ⟨hca, hc, hn⟩ := update_in_place_readable_iff id
  refine ⟨(hca r cap ?_ false 3 2).mpr ?_, (hc r' c ?_ .draining).mpr ?_, (hn r'' n ?_ 30000 "c1").mpr (.inr ?_)⟩
  · exact CapabilityRegistry.registered_register id (r := .empty) rfl
  · exact (reencode_eq_self id _).mp rfl
  · exact ClusterRegistry.registered_register id (r := .empty) rfl
  · exact (reencode_eq_self id _).mp rfl
  · exact NodeRegistry.registered_register id (r := .empty) rfl
  · exact (reencode_eq_self id _).mp rfl

/-- A capability without tags cannot be read after a health check. -/
theorem unreadable_after_health_check :
    let cap : CapabilityInfo := { capabilityName := "ocr" }
    let r := ((CapabilityRegistry.register cap).runWith (RecordCommand.apply id) .ok Keyspace.empty).2
    let r' := ((CapabilityRegistry.updateHealth id "ocr" true).runWith (RecordCommand.apply id) .ok r).2
    ((CapabilityRegistry.getCapability "ocr").runWith (RecordCommand.apply id) .ok r).1 = .ok (some cap) ∧
      ((CapabilityRegistry.getCapability "ocr").runWith (RecordCommand.apply id) .ok r').1 =
        .error (.valueError "validation error for CapabilityInfo") := by
  refine ⟨?_, ?_⟩
  · rfl
  · rfl

end AsyncScheduler
