import AsyncScheduler.Shared.Codec

/-!
# Nodes

The states of a node, its record in the registry and the requests that a cluster sends to its agent.
-/

namespace AsyncScheduler

inductive NodeState where
  | idle | reserved | joining | joined | draining | offline
  deriving DecidableEq, Repr

def NodeState.value : NodeState → String
  | .idle => "idle"
  | .reserved => "reserved"
  | .joining => "joining"
  | .joined => "joined"
  | .draining => "draining"
  | .offline => "offline"

structure GPUInfo where
  gpuIndex : Int := 0
  gpuType : String := ""
  memoryTotalMb : Int := 0
  memoryUsedMb : Int := 0
  deriving DecidableEq, Repr

structure NodeResources where
  totalCpus : Int := 0
  availableCpus : Int := 0
  totalMemoryMb : Int := 0
  availableMemoryMb : Int := 0
  totalGpus : Int := 0
  availableGpus : Int := 0
  gpuList : List GPUInfo := []
  rayNodeId : String := ""
  rayResourcesTotal : List (String × ℚ) := []
  rayResourcesAvailable : List (String × ℚ) := []
  raySyncTime : ℚ := 0
  deriving DecidableEq, Repr

structure NodeInfo where
  nodeId : String
  host : String := ""
  agentPort : Int := 9100
  state : NodeState := .idle
  resources : NodeResources := {}
  labels : List (String × String) := []
  customResources : List (String × ℚ) := []
  clusterId : String := ""
  rayHeadAddress : String := ""
  lastHeartbeat : ℚ := 0
  registeredAt : ℚ := 0
  tenantId : String := ""
  deriving DecidableEq, Repr

def NodeState.codec : Codec NodeState := .enum value [.idle, .reserved, .joining, .joined, .draining, .offline]

instance : NodeState.codec.Lawful := Codec.lawful_enum fun a => by cases a <;> decide

namespace GPUInfo

def fields :=
  Fields.cons "gpu_index" .int (some 0) <|
  Fields.cons "gpu_type" .str (some "") <|
  Fields.cons "memory_total_mb" .int (some 0) <|
  Fields.cons "memory_used_mb" .int (some 0) Fields.nil

instance : fields.Lawful := by
  unfold fields
  infer_instance

def codec : Codec GPUInfo :=
  .record fields (fun g => (g.gpuIndex, g.gpuType, g.memoryTotalMb, g.memoryUsedMb, ()))
    (fun (gpuIndex, gpuType, memoryTotalMb, memoryUsedMb, ()) => some ⟨gpuIndex, gpuType, memoryTotalMb, memoryUsedMb⟩)

instance : codec.Lawful := Codec.lawful_record (by decide) (fun _ => rfl) fun _ _ h => by cases h; rfl

end GPUInfo

namespace NodeResources

def fields :=
  Fields.cons "total_cpus" .int (some 0) <|
  Fields.cons "available_cpus" .int (some 0) <|
  Fields.cons "total_memory_mb" .int (some 0) <|
  Fields.cons "available_memory_mb" .int (some 0) <|
  Fields.cons "total_gpus" .int (some 0) <|
  Fields.cons "available_gpus" .int (some 0) <|
  Fields.cons "gpu_list" GPUInfo.codec.list (some []) <|
  Fields.cons "ray_node_id" .str (some "") <|
  Fields.cons "ray_resources_total" (.dict .float) (some []) <|
  Fields.cons "ray_resources_available" (.dict .float) (some []) <|
  Fields.cons "ray_sync_time" .float (some 0) Fields.nil

instance : fields.Lawful := by
  unfold fields
  infer_instance

def codec : Codec NodeResources :=
  .record fields
    (fun r => (r.totalCpus, r.availableCpus, r.totalMemoryMb, r.availableMemoryMb, r.totalGpus, r.availableGpus,
      r.gpuList, r.rayNodeId, r.rayResourcesTotal, r.rayResourcesAvailable, r.raySyncTime, ()))
    (fun (totalCpus, availableCpus, totalMemoryMb, availableMemoryMb, totalGpus, availableGpus, gpuList, rayNodeId,
        rayResourcesTotal, rayResourcesAvailable, raySyncTime, ()) =>
      some ⟨totalCpus, availableCpus, totalMemoryMb, availableMemoryMb, totalGpus, availableGpus, gpuList, rayNodeId,
        rayResourcesTotal, rayResourcesAvailable, raySyncTime⟩)

instance : codec.Lawful := Codec.lawful_record (by decide) (fun _ => rfl) fun _ _ h => by cases h; rfl

end NodeResources

namespace NodeInfo

def fields :=
  Fields.cons "node_id" .str none <|
  Fields.cons "host" .str (some "") <|
  Fields.cons "agent_port" .int (some 9100) <|
  Fields.cons "state" NodeState.codec (some .idle) <|
  Fields.cons "resources" NodeResources.codec (some {}) <|
  Fields.cons "labels" (.dict .str) (some []) <|
  Fields.cons "custom_resources" (.dict .float) (some []) <|
  Fields.cons "cluster_id" .str (some "") <|
  Fields.cons "ray_head_address" .str (some "") <|
  Fields.cons "last_heartbeat" .float (some 0) <|
  Fields.cons "registered_at" .float (some 0) <|
  Fields.cons "tenant_id" .str (some "") Fields.nil

instance : fields.Lawful := by
  unfold fields
  infer_instance

def parts (n : NodeInfo) :=
  (n.nodeId, n.host, n.agentPort, n.state, n.resources, n.labels, n.customResources, n.clusterId, n.rayHeadAddress,
    n.lastHeartbeat, n.registeredAt, n.tenantId, ())

/-- `model_dump` and `model_validate`. -/
def codec : Codec NodeInfo :=
  .record fields parts
    (fun (nodeId, host, agentPort, state, resources, labels, customResources, clusterId, rayHeadAddress, lastHeartbeat,
        registeredAt, tenantId, ()) =>
      some ⟨nodeId, host, agentPort, state, resources, labels, customResources, clusterId, rayHeadAddress,
        lastHeartbeat, registeredAt, tenantId⟩)

instance : codec.Lawful := Codec.lawful_record (by decide) (fun _ => rfl) fun _ _ h => by cases h; rfl

end NodeInfo

structure InvitationRequest where
  clusterId : String
  rayHeadAddress : String
  deriving DecidableEq, Repr

structure InvitationResponse where
  nodeId : String
  accepted : Bool := false
  reason : String := ""
  rayNodeIp : String := ""
  deriving DecidableEq, Repr

structure ReleaseRequest where
  clusterId : String
  graceful : Bool := true
  deriving DecidableEq, Repr

structure DrainRequest where
  clusterId : String
  deriving DecidableEq, Repr

end AsyncScheduler
