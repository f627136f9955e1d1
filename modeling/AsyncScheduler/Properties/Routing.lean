import AsyncScheduler.Properties.RecordUpdates

/-!
# Observed resources

`update_resources` writes the observed layer at the top of a cluster's record, where nothing reads
it.
-/

namespace AsyncScheduler
open Fields List Keyspace Prog

open JsonValue

namespace ClusterRegistry
variable (number : ℚ → ℚ)
variable {o p : ObservedResources} {g : ClusterInfo → ClusterInfo}

def observing (o : ObservedResources) (c : ClusterInfo) : ClusterInfo :=
  { c with resources := { c.resources with observed := o } }

/-- The registry holds these clusters, as `register` has stored them. -/
structure Holding (r : Records) (cs : List ClusterInfo) : Prop where
  ids : r.smembers clusterIndex = some (cs.map ClusterInfo.clusterId)
  distinct : (cs.map ClusterInfo.clusterId).Nodup
  records : ∀ c ∈ cs, Registered r c

/-- The observed layer is what `get_cluster` returns, with the same plan, and what `select_cluster`
chooses by, for every query. -/
structure Reaches (r : Records) (cs : List ClusterInfo) (c : ClusterInfo) (o : ObservedResources) : Prop where
  observed : ∃ c', ((getCluster c.clusterId).runWith (RecordCommand.apply number) .ok r).1 = .ok (some c') ∧
    c'.resources.observed = o ∧ c'.resources.plan = c.resources.plan
  selected : ∀ q, ((selectCluster q).runWith (RecordCommand.apply number) .ok r).1 =
    .ok (ClusterQuery.select q (cs.map fun d => if d.clusterId = c.clusterId then observing o d else d))

/-- The stored layer, printed by the script, reads as `o`. -/
structure PrintsAs (p o : ObservedResources) : Prop where
  totalGpus : number p.totalGpus = o.totalGpus
  availableGpus : number p.availableGpus = o.availableGpus
  availableCpus : number p.availableCpus = o.availableCpus
  availableMemoryGb : number p.availableMemoryGb = o.availableMemoryGb

theorem int_dec_eq {q : ℚ} {n : Int} (h : Codec.int.dec (.num q) = some n) : q = n := by
  simp only [Codec.int] at h
  split at h
  · next hd =>
    rw [← Option.some.inj h]
    exact (Rat.coe_int_num_of_den_eq_one hd).symm
  · cases h

theorem printsAs_of_dec (h : ObservedResources.codec.dec ((ObservedResources.codec.enc p).reencode number) = some o) :
    PrintsAs number p o := by
  obtain ⟨b, hb, hbu⟩ := Option.bind_eq_some_iff.mp h
  obtain rfl := Option.some.inj hbu
  have h₁ := dec_rest hb
  have h₂ := dec_rest h₁
  have h₃ := dec_rest h₂
  exact ⟨int_dec_eq (dec_head hb rfl), int_dec_eq (dec_head h₁ rfl), int_dec_eq (dec_head h₂ rfl),
    Option.some.inj (dec_head h₃ rfl)⟩

theorem reencode_observed (h : PrintsAs number p o) :
    reencodeFields number (ObservedResources.fields.enc p.parts) = ObservedResources.fields.enc o.parts := by
  change [("total_gpus", num (number p.totalGpus)), ("available_gpus", num (number p.availableGpus)),
    ("available_cpus", num (number p.availableCpus)), ("available_memory_gb", num (number p.availableMemoryGb))] = _
  rw [h.totalGpus, h.availableGpus, h.availableCpus, h.availableMemoryGb]
  rfl

theorem layers_of_dec {p p' : ClusterResources}
    (h : ClusterResources.codec.dec ((ClusterResources.codec.enc p).reencode number) = some p') :
    PlannedResources.codec.dec ((PlannedResources.codec.enc p.plan).reencode number) = some p'.plan ∧
      ObservedResources.codec.dec ((ObservedResources.codec.enc p.observed).reencode number) = some p'.observed := by
  change ClusterResources.nested.dec (ClusterResources.fromFlat (p.toFlat.reencode number)) = some p' at h
  rw [ClusterResources.fromFlat_reencode] at h
  obtain ⟨b, hb, hbu⟩ := Option.bind_eq_some_iff.mp h
  obtain rfl := Option.some.inj hbu
  exact ⟨dec_head hb rfl, dec_head (dec_rest hb) rfl⟩

theorem reencode_resources {p : ClusterResources}
    (hp : (PlannedResources.codec.enc p.plan).Stable number) (ho : PrintsAs number p.observed o) :
    p.toFlat.reencode number = ({ p with observed := o } : ClusterResources).toFlat := by
  have hpl : reencodeFields number (PlannedResources.fields.enc p.plan.parts) = PlannedResources.fields.enc p.plan.parts :=
    (reencodeFields_eq_self number _).mpr hp
  rw [ClusterResources.toFlat, reencode, reencodeFields_eq, map_append, ← reencodeFields_eq, ← reencodeFields_eq,
    hpl, reencode_observed number ho]
  rfl

/-- What `update_resources` adds to the record. -/
def written (o : ObservedResources) : JsonObj :=
  [("total_gpus", .num o.totalGpus), ("available_gpus", .num o.availableGpus),
    ("available_cpus", .num o.availableCpus), ("available_memory_gb", .num o.availableMemoryGb)]

variable {number} {r : Records} {cs : List ClusterInfo} {c : ClusterInfo} {o : ObservedResources}

theorem updateResources_eq (h : Registered r c) :
    ((updateResources number c.clusterId o).runWith (RecordCommand.apply number) .ok r).2 =
      r.touch (clusterKey c.clusterId) fun _ => some (.string (.json (.obj
        (reencodeFields number (ClusterInfo.fields.enc c.parts) ++ reencodeFields number (written o)))), none) := by
  rw [updateResources, runUpdate_eq number h]
  rfl

theorem get_updateResources (h : Registered r c) :
    ((updateResources number c.clusterId o).runWith (RecordCommand.apply number) .ok r).2.get (clusterKey c.clusterId) =
      some (some (.json (.obj
        (reencodeFields number (ClusterInfo.fields.enc c.parts) ++ reencodeFields number (written o))))) := by
  rw [updateResources_eq h, Keyspace.get, entries_touch, if_pos rfl]

theorem resources_of_dec {c' : ClusterInfo} {extra : JsonObj}
    (h : ClusterInfo.codec.dec (.obj (reencodeFields number (ClusterInfo.fields.enc c.parts) ++ extra)) = some c') :
    ClusterResources.codec.dec ((ClusterResources.codec.enc c.resources).reencode number) = some c'.resources := by
  obtain ⟨b, hb, hbu⟩ := Option.bind_eq_some_iff.mp h
  obtain rfl := Option.some.inj hbu
  exact dec_head (dec_rest (dec_rest (dec_rest (dec_rest hb)))) rfl

theorem holdsFields_append {fields : JsonObj} (h : (fields.map Prod.fst).Nodup)
    (extra : JsonObj) : HoldsFields ((fields ++ extra).lookup ·) fields := by
  intro e he
  have hf : fields.lookup e.1 = some e.2 := holdsFields_lookup h e he
  change (fields ++ extra).lookup e.1 = some e.2
  rw [lookup_append, hf]
  rfl

theorem reencode_labels (labels : List (String × String)) :
    ((Codec.dict .str).enc labels).reencode number = (Codec.dict .str).enc labels := by
  refine (reencode_eq_self number _).mpr ((stableFields_iff number).mpr fun e he => ?_)
  obtain ⟨label, -, rfl⟩ := mem_map.mp he
  trivial

theorem reencode_names {names : List String} (h : names ≠ []) :
    ((Codec.list .str).enc names).reencode number = (Codec.list .str).enc names := by
  refine (reencode_eq_self number _).mpr ⟨by simpa using h, (stableItems_iff number).mpr fun j hj => ?_⟩
  obtain ⟨name, -, rfl⟩ := mem_map.mp hj
  trivial

theorem dec_updateResources (hc : c.capabilities ≠ []) (hp : (PlannedResources.codec.enc c.resources.plan).Stable number)
    (ho : PrintsAs number c.resources.observed o) (extra : JsonObj) :
    ClusterInfo.codec.dec (.obj (reencodeFields number (ClusterInfo.fields.enc c.parts) ++ extra)) = some (observing o c) := by
  have hf : reencodeFields number (ClusterInfo.fields.enc c.parts) = ClusterInfo.fields.enc (observing o c).parts := by
    change [("cluster_id", str c.clusterId), ("tenant_id", str c.tenantId), ("cluster_type", str c.clusterType.value),
      ("ray_head_address", str c.rayHeadAddress), ("resources", c.resources.toFlat.reencode number),
      ("capabilities", ((Codec.list .str).enc c.capabilities).reencode number), ("status", str c.status.value),
      ("labels", ((Codec.dict .str).enc c.labels).reencode number)] = _
    rw [reencode_resources number hp ho, reencode_names hc, reencode_labels]
    rfl
  rw [hf]
  unfold ClusterInfo.codec
  apply Codec.record_dec_of_holdsFields
  · exact fun _ => rfl
  refine holdsFields_append ?_ extra
  rw [Lawful.names_enc]
  decide

theorem clusterKey_inj {id id' : String} (h : clusterKey id = clusterKey id') : id = id' := by
  rw [clusterKey, clusterKey, base.makeKey_eq_makeKey] at h
  simpa only [String.append_assoc, String.append_right_inj] using h

theorem clusterIndex_ne_indexKey (t : String) : clusterIndex ≠ base.indexKey t := by
  have hi : clusterIndex = "clusters:" ++ "all" := by decide
  rw [hi]
  exact append_ne 7 (by decide) (by decide) (by decide) _ _

theorem clusterIndex_ne_tenantsKey : clusterIndex ≠ base.tenantsKey := by decide

theorem holding_empty : Holding Keyspace.empty [] := ⟨rfl, nodup_nil, fun _ h => absurd h not_mem_nil⟩

theorem holding_register {r' : Records} (h : Holding r cs) (hn : c.clusterId ∉ cs.map ClusterInfo.clusterId)
    (hr : (register c).runWith (RecordCommand.apply number) .ok r = (.ok (), r')) : Holding r' (cs ++ [c]) := by
  have hs := registered_register number hr
  obtain ⟨_, r₁, hset, hr⟩ := runWith_bind_eq_ok.mp (runWith_logExternalErrors_ok hr)
  obtain rfl := base.eq_of_setRecord number r hset
  rw [RecordPy.runWith_sadd] at hr
  obtain rfl := (Prod.mk.inj hr).2
  have hi : clusterIndex ≠ base.makeKey globalTenant c.clusterId := (clusterKey_ne_clusterIndex _).symm
  constructor
  · rw [map_append, map_singleton]
    refine smembers_touch_added_new ?_ hn
    rw [smembers_touch _ _ _ clusterIndex_ne_tenantsKey, smembers_touch _ _ _ (clusterIndex_ne_indexKey _),
      smembers_touch _ _ _ hi]
    exact h.ids
  · rw [map_append, map_singleton, nodup_append_comm, singleton_append, nodup_cons]
    exact ⟨hn, h.distinct⟩
  · intro d hd
    rcases mem_append.mp hd with hin | hl
    · have hne : d.clusterId ≠ c.clusterId := fun heq => hn (heq ▸ mem_map.mpr ⟨d, hin, rfl⟩)
      have hk : clusterKey d.clusterId ≠ base.makeKey globalTenant c.clusterId := fun heq => hne (clusterKey_inj heq)
      have ht : clusterKey d.clusterId ≠ base.tenantsKey := base.makeKey_ne_tenantsKey _ _
      have hit : clusterKey d.clusterId ≠ base.indexKey globalTenant := base.makeKey_globalTenant_ne _ _
      rw [Registered, get_touch _ _ _ (clusterKey_ne_clusterIndex _), get_touch _ _ _ ht,
        get_touch _ _ _ hit, get_touch _ _ _ hk]
      exact h.records d hin
    · rw [mem_singleton.mp hl]
      exact hs

theorem runWith_collect
    (h : ∀ d ∈ cs, (getCluster d.clusterId).runWith (RecordCommand.apply number) .ok r = (.ok (some (g d)), r)) :
    (collect (cs.map ClusterInfo.clusterId)).runWith (RecordCommand.apply number) .ok r = (.ok (cs.map g), r) := by
  induction cs with
  | nil => rfl
  | cons d cs ih =>
    have hh := h d mem_cons_self
    have hr := ih fun d' hd' => h d' (mem_cons_of_mem _ hd')
    rw [map_cons, collect, bind_eq, runWith_bind_ok hh, bind_eq, runWith_bind_ok hr]
    rfl

theorem runWith_selectCluster (hi : r.smembers clusterIndex = some (cs.map ClusterInfo.clusterId))
    (h : ∀ d ∈ cs, (getCluster d.clusterId).runWith (RecordCommand.apply number) .ok r = (.ok (some (g d)), r))
    (q : ClusterQuery) :
    ((selectCluster q).runWith (RecordCommand.apply number) .ok r).1 = .ok (q.select (cs.map g)) := by
  have hl : listAll.runWith (RecordCommand.apply number) .ok r = (.ok (some (cs.map g)), r) := by
    have hs := RecordPy.runWith_smembers number r clusterIndex
    rw [hi] at hs
    rw [listAll, runWith_suppressErrors, bind_eq, runWith_bind_ok hs, runWith_collect h]
  rw [selectCluster, bind_eq, runWith_bind, runWith_suppressErrors, bind_eq, runWith_bind_ok hl]
  rfl

theorem runWith_getCluster (h : Registered r c) :
    (getCluster c.clusterId).runWith (RecordCommand.apply number) .ok r = (.ok (some c), r) := by
  have hd : ClusterInfo.codec.dec (.obj (ClusterInfo.fields.enc c.parts)) = some c := Codec.Lawful.dec_enc c
  rw [getCluster, base.runWith_getModel number _ _ _ h, hd]

theorem getCluster_updateResources (h : Registered r c) (hc : c.capabilities ≠ [])
    (hp : (PlannedResources.codec.enc c.resources.plan).Stable number)
    (ho : PrintsAs number c.resources.observed o) :
    let r' := ((updateResources number c.clusterId o).runWith (RecordCommand.apply number) .ok r).2
    (getCluster c.clusterId).runWith (RecordCommand.apply number) .ok r' = (.ok (some (observing o c)), r') := by
  intro r'
  rw [getCluster, base.runWith_getModel number _ _ _ (get_updateResources h), dec_updateResources hc hp ho]

/-- The routes see new observations exactly when they survive the script and the codec. -/
theorem observed_reaches_iff_stored (h : Holding r cs) (hc : c ∈ cs) (hcapabilities : c.capabilities ≠ [])
    (o : ObservedResources) :
    Reaches number ((updateResources number c.clusterId o).runWith (RecordCommand.apply number) .ok r).2 cs c o ↔
      (PlannedResources.codec.enc c.resources.plan).Stable number ∧ PrintsAs number c.resources.observed o := by
  have hre := h.records c hc
  constructor
  · intro hrea
    obtain ⟨c', hr, ho, hp⟩ := hrea.observed
    rw [getCluster, base.runWith_getModel number _ _ _ (get_updateResources hre)] at hr
    split at hr
    · next read hde =>
      obtain rfl := Option.some.inj (Except.ok.inj hr)
      obtain ⟨hpl, hob⟩ := layers_of_dec number (resources_of_dec hde)
      rw [hp] at hpl
      rw [ho] at hob
      exact ⟨Codec.Lawful.stable number _ hpl, printsAs_of_dec number hob⟩
    · cases hr
  · rintro ⟨hp, ho⟩
    have hs := getCluster_updateResources hre hcapabilities hp ho
    refine ⟨⟨observing o c, congrArg Prod.fst hs, rfl, rfl⟩, runWith_selectCluster ?_ fun d hd => ?_⟩
    · rw [updateResources_eq hre, Keyspace.smembers_touch _ _ _ (clusterKey_ne_clusterIndex _).symm]
      exact h.ids
    · by_cases hid : d.clusterId = c.clusterId
      · obtain rfl : d = c := List.inj_on_of_nodup_map h.distinct hd hc hid
        rw [if_pos rfl]
        exact hs
      · rw [if_neg hid]
        refine runWith_getCluster ?_
        rw [Registered, updateResources_eq hre, Keyspace.get_touch _ _ _ fun heq => hid (clusterKey_inj heq)]
        exact h.records d hd

theorem observed_reaches_unchanged :
    let c : ClusterInfo := { clusterId := "c1", capabilities := ["ocr"], resources := { observed := { availableGpus := 4 } } }
    let r := ((register c).runWith (RecordCommand.apply id) .ok Keyspace.empty).2
    Reaches id ((updateResources id "c1" { availableGpus := 4 }).runWith (RecordCommand.apply id) .ok r).2 [c] c
      { availableGpus := 4 } := by
  intro c r
  have hr : (register c).runWith (RecordCommand.apply id) .ok Keyspace.empty = (.ok (), r) := rfl
  have hh : Holding r [c] := holding_register holding_empty List.not_mem_nil hr
  refine (observed_reaches_iff_stored hh List.mem_cons_self (List.cons_ne_nil _ _) _).mpr ⟨?_, rfl, rfl, rfl, rfl⟩
  exact (reencode_eq_self id _).mp rfl

/-- Eight free devices are reported, and a query for one finds no cluster. -/
theorem observed_devices_lost :
    let c : ClusterInfo := { clusterId := "c1", capabilities := ["ocr"] }
    let r := ((register c).runWith (RecordCommand.apply id) .ok Keyspace.empty).2
    let r' := ((updateResources id "c1" { totalGpus := 8, availableGpus := 8 }).runWith (RecordCommand.apply id) .ok r).2
    ((getCluster "c1").runWith (RecordCommand.apply id) .ok r').1 = .ok (some c) ∧
      ((selectCluster { requiredGpus := 1 }).runWith (RecordCommand.apply id) .ok r').1 = .ok none := by
  exact ⟨rfl, rfl⟩

end ClusterRegistry

end AsyncScheduler
