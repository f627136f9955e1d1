import AsyncScheduler.Shared.Codec

/-!
# Clusters

A cluster has planned resources, declared when it is registered, and observed ones. Its record holds
both in one flat object.
-/

namespace AsyncScheduler
open List JsonValue

inductive ClusterType where
  | onlineInference | offlineGeneration | training | dataProcessing
  deriving DecidableEq, Repr

def ClusterType.value : ClusterType → String
  | .onlineInference => "online_inference"
  | .offlineGeneration => "offline_generation"
  | .training => "training"
  | .dataProcessing => "data_processing"

inductive ClusterStatus where
  | active | draining | offline
  deriving DecidableEq, Repr

def ClusterStatus.value : ClusterStatus → String
  | .active => "active"
  | .draining => "draining"
  | .offline => "offline"

structure PlannedResources where
  fixedGpus : Int := 0
  tidalGpus : Int := 0
  gpuTypes : List (String × Int) := []
  totalCpus : Int := 0
  totalMemoryGb : ℚ := 0
  deriving DecidableEq, Repr

structure ObservedResources where
  totalGpus : Int := 0
  availableGpus : Int := 0
  availableCpus : Int := 0
  availableMemoryGb : ℚ := 0
  deriving DecidableEq, Repr

structure ClusterResources where
  plan : PlannedResources := {}
  observed : ObservedResources := {}
  deriving DecidableEq, Repr

structure ClusterInfo where
  clusterId : String
  tenantId : String := ""
  clusterType : ClusterType := .offlineGeneration
  rayHeadAddress : String := ""
  resources : ClusterResources := {}
  capabilities : List String := []
  status : ClusterStatus := .active
  labels : List (String × String) := []
  deriving DecidableEq, Repr

def ClusterType.codec : Codec ClusterType :=
  .enum value [.onlineInference, .offlineGeneration, .training, .dataProcessing]

def ClusterStatus.codec : Codec ClusterStatus := .enum value [.active, .draining, .offline]

instance : ClusterType.codec.Lawful := Codec.lawful_enum fun a => by cases a <;> decide

instance : ClusterStatus.codec.Lawful := Codec.lawful_enum fun a => by cases a <;> decide

namespace PlannedResources

def fields :=
  Fields.cons "fixed_gpus" .int (some 0) <|
  Fields.cons "tidal_gpus" .int (some 0) <|
  Fields.cons "gpu_types" (.dict .int) (some []) <|
  Fields.cons "total_cpus" .int (some 0) <|
  Fields.cons "total_memory_gb" .float (some 0) Fields.nil

instance : fields.Lawful := by
  unfold fields
  infer_instance

def parts (r : PlannedResources) := (r.fixedGpus, r.tidalGpus, r.gpuTypes, r.totalCpus, r.totalMemoryGb, ())

def codec : Codec PlannedResources :=
  .record fields parts fun (fixedGpus, tidalGpus, gpuTypes, totalCpus, totalMemoryGb, ()) =>
    some ⟨fixedGpus, tidalGpus, gpuTypes, totalCpus, totalMemoryGb⟩

instance : codec.Lawful := Codec.lawful_record (by decide) (fun _ => rfl) fun _ _ h => by cases h; rfl

end PlannedResources

namespace ObservedResources

def fields :=
  Fields.cons "total_gpus" .int (some 0) <|
  Fields.cons "available_gpus" .int (some 0) <|
  Fields.cons "available_cpus" .int (some 0) <|
  Fields.cons "available_memory_gb" .float (some 0) Fields.nil

instance : fields.Lawful := by
  unfold fields
  infer_instance

def parts (r : ObservedResources) := (r.totalGpus, r.availableGpus, r.availableCpus, r.availableMemoryGb, ())

def codec : Codec ObservedResources :=
  .record fields parts fun (totalGpus, availableGpus, availableCpus, availableMemoryGb, ()) =>
    some ⟨totalGpus, availableGpus, availableCpus, availableMemoryGb⟩

instance : codec.Lawful := Codec.lawful_record (by decide) (fun _ => rfl) fun _ _ h => by cases h; rfl

end ObservedResources

namespace ClusterResources

def planKeys : List String := ["fixed_gpus", "tidal_gpus", "gpu_types", "total_cpus", "total_memory_gb"]

def obsKeys : List String := ["total_gpus", "available_gpus", "available_cpus", "available_memory_gb"]

def fromFlat : JsonValue → JsonValue
  | .obj data =>
    if (data.lookup "plan").isSome || (data.lookup "observed").isSome then .obj data
    else .obj [("plan", .obj (data.filter (·.1 ∈ planKeys))), ("observed", .obj (data.filter (·.1 ∈ obsKeys)))]
  | data => data

def toFlat (r : ClusterResources) : JsonValue :=
  .obj (PlannedResources.fields.enc r.plan.parts ++ ObservedResources.fields.enc r.observed.parts)

def nested : Codec ClusterResources :=
  .record (Fields.cons "plan" PlannedResources.codec (some {}) <|
      Fields.cons "observed" ObservedResources.codec (some {}) Fields.nil)
    (fun r => (r.plan, r.observed, ())) fun (plan, observed, ()) => some ⟨plan, observed⟩

def codec : Codec ClusterResources := ⟨toFlat, fun j => nested.dec (fromFlat j)⟩

instance : nested.Lawful := Codec.lawful_record (by decide) (fun _ => rfl) fun _ _ h => by cases h; rfl

theorem lookup_eq_none {fs : JsonObj} {n : String} (h : n ∉ fs.map Prod.fst) : fs.lookup n = none := by
  refine lookup_eq_none_iff.mpr fun e he => ?_
  rw [bne_iff_ne]
  rintro rfl
  exact h (mem_map.mpr ⟨e, he, rfl⟩)

theorem fromFlat_append {fs gs : JsonObj} (hf : fs.map Prod.fst = planKeys)
    (hg : gs.map Prod.fst = obsKeys) : fromFlat (.obj (fs ++ gs)) = .obj [("plan", .obj fs), ("observed", .obj gs)] := by
  have hno : ∀ n, n ∉ planKeys ++ obsKeys → (fs ++ gs).lookup n = none := by
    intro n hn
    apply lookup_eq_none
    rw [map_append, hf, hg]
    exact hn
  have hfs : ∀ e ∈ fs, e.1 ∈ planKeys := fun e he => hf ▸ mem_map.mpr ⟨e, he, rfl⟩
  have hgs : ∀ e ∈ gs, e.1 ∈ obsKeys := fun e he => hg ▸ mem_map.mpr ⟨e, he, rfl⟩
  have hd : ∀ n ∈ planKeys, n ∉ obsKeys := by decide
  have hp : (fs ++ gs).filter (·.1 ∈ planKeys) = fs := by
    rw [filter_append, filter_eq_self.mpr, filter_eq_nil_iff.mpr, append_nil]
    · exact fun e he => by simpa using fun hin => hd _ hin (hgs e he)
    · exact fun e he => by simpa using hfs e he
  have ho : (fs ++ gs).filter (·.1 ∈ obsKeys) = gs := by
    rw [filter_append, filter_eq_nil_iff.mpr, filter_eq_self.mpr, nil_append]
    · exact fun e he => by simpa using hgs e he
    · exact fun e he => by simpa using hd _ (hfs e he)
  rw [fromFlat, hno "plan" (by decide), hno "observed" (by decide), hp, ho]
  rfl

theorem fromFlat_toFlat (r : ClusterResources) : fromFlat r.toFlat = nested.enc r :=
  fromFlat_append (Fields.Lawful.names_enc _) (Fields.Lawful.names_enc _)

theorem fromFlat_reencode (number : ℚ → ℚ) (r : ClusterResources) :
    fromFlat (r.toFlat.reencode number) = (nested.enc r).reencode number := by
  rw [toFlat, JsonValue.reencode, reencodeFields_eq, map_append, ← reencodeFields_eq, ← reencodeFields_eq]
  refine fromFlat_append ?_ ?_
  · rw [names_reencodeFields, Fields.Lawful.names_enc]
    rfl
  · rw [names_reencodeFields, Fields.Lawful.names_enc]
    rfl

instance : codec.Lawful where
  dec_enc r := by
    change nested.dec (fromFlat r.toFlat) = some r
    rw [fromFlat_toFlat, Codec.Lawful.dec_enc]
  stable number r h := by
    change nested.dec (fromFlat (r.toFlat.reencode number)) = some r at h
    rw [fromFlat_reencode] at h
    obtain ⟨hplan, hobserved, -⟩ := Codec.Lawful.stable number r h
    refine (stableFields_iff number).mpr fun e he => ?_
    rcases mem_append.mp he with hin | hin
    · exact (stableFields_iff number).mp hplan e hin
    · exact (stableFields_iff number).mp hobserved e hin

end ClusterResources

namespace ClusterInfo

def fields :=
  Fields.cons "cluster_id" .str none <|
  Fields.cons "tenant_id" .str (some "") <|
  Fields.cons "cluster_type" ClusterType.codec (some .offlineGeneration) <|
  Fields.cons "ray_head_address" .str (some "") <|
  Fields.cons "resources" ClusterResources.codec (some {}) <|
  Fields.cons "capabilities" (.list .str) (some []) <|
  Fields.cons "status" ClusterStatus.codec (some .active) <|
  Fields.cons "labels" (.dict .str) (some []) Fields.nil

instance : fields.Lawful := by
  unfold fields
  infer_instance

def parts (c : ClusterInfo) :=
  (c.clusterId, c.tenantId, c.clusterType, c.rayHeadAddress, c.resources, c.capabilities, c.status, c.labels, ())

/-- `model_dump` and `model_validate`. -/
def codec : Codec ClusterInfo :=
  .record fields parts
    (fun (clusterId, tenantId, clusterType, rayHeadAddress, resources, capabilities, status, labels, ()) =>
      some ⟨clusterId, tenantId, clusterType, rayHeadAddress, resources, capabilities, status, labels⟩)

instance : codec.Lawful := Codec.lawful_record (by decide) (fun _ => rfl) fun _ _ h => by cases h; rfl

end ClusterInfo

end AsyncScheduler
