import AsyncScheduler.Models.Cluster
import AsyncScheduler.Platform.CapabilityRegistry

/-!
# Cluster registry

Clusters are items of the global tenant. A task is routed to the active cluster with the most free
devices.
-/

namespace AsyncScheduler

namespace ClusterRegistry

def base : BaseRegistry := ⟨"cluster", 0⟩

def clusterIndex : String := "clusters:all"

def clusterKey (clusterId : String) : String := base.makeKey globalTenant clusterId

def register (cluster : ClusterInfo) : RecordPy Unit :=
  logExternalErrors do
    let _ ← base.setRecord globalTenant cluster.clusterId (ClusterInfo.codec.enc cluster)
    RecordPy.sadd clusterIndex cluster.clusterId

def getCluster (clusterId : String) : RecordPy (Option ClusterInfo) :=
  base.getModel ClusterInfo.codec "ClusterInfo" globalTenant clusterId

def collect : List String → RecordPy (List ClusterInfo)
  | [] => pure []
  | cid :: rest => do
    let c ← getCluster cid
    let clusters ← collect rest
    pure (c.toList ++ clusters)

def listAll : RecordPy (Option (List ClusterInfo)) :=
  suppressErrors do
    let ids ← RecordPy.smembers clusterIndex
    collect ids

def runUpdate (number : ℚ → ℚ) (clusterId : String) (fields : JsonObj) : RecordPy Unit :=
  logExternalErrors
    (awaiting (.updateCluster (clusterKey clusterId) fields) fun r =>
      (luaUpdateCluster number (clusterKey clusterId) fields r).1)

/-- The fields of `ObservedResources`, at the top of the record. -/
def updateResources (number : ℚ → ℚ) (clusterId : String) (observed : ObservedResources) : RecordPy Unit :=
  runUpdate number clusterId
    [("total_gpus", .num observed.totalGpus), ("available_gpus", .num observed.availableGpus),
      ("available_cpus", .num observed.availableCpus), ("available_memory_gb", .num observed.availableMemoryGb)]

def updateStatus (number : ℚ → ℚ) (clusterId : String) (status : ClusterStatus) : RecordPy Unit :=
  runUpdate number clusterId [("status", .str status.value)]

structure ClusterQuery where
  requiredGpus : Int := 0
  capability : Option String := none
  tenantId : Option String := none
  deriving DecidableEq, Repr

/-- The filters of `select_cluster`; an empty text asks for nothing. -/
def ClusterQuery.admits (q : ClusterQuery) (c : ClusterInfo) : Bool :=
  c.status = .active &&
  !(0 < q.requiredGpus && c.resources.observed.availableGpus < q.requiredGpus) &&
  q.capability.all (fun capability => capability = "" || capability ∈ c.capabilities) &&
  q.tenantId.all (fun tenantId => tenantId = "" || c.tenantId = "" || c.tenantId = tenantId)

/-- At least the free devices of the other, and at equal numbers at least its free processors. -/
def AtLeastAsFree (a b : ClusterInfo) : Prop :=
  b.resources.observed.availableGpus < a.resources.observed.availableGpus ∨
    a.resources.observed.availableGpus = b.resources.observed.availableGpus ∧
      b.resources.observed.availableCpus ≤ a.resources.observed.availableCpus

instance : DecidableRel AtLeastAsFree :=
  fun a b => inferInstanceAs (Decidable (b.resources.observed.availableGpus < a.resources.observed.availableGpus ∨
    a.resources.observed.availableGpus = b.resources.observed.availableGpus ∧
      b.resources.observed.availableCpus ≤ a.resources.observed.availableCpus))

def ClusterQuery.select (q : ClusterQuery) (clusters : List ClusterInfo) : Option ClusterInfo :=
  ((clusters.filter q.admits).insertionSort AtLeastAsFree).head?

def selectCluster (q : ClusterQuery) : RecordPy (Option ClusterInfo) := do
  let chosen ← suppressErrors do
    let clusters ← listAll
    match clusters with
    | none => .raise (.typeError "'NoneType' object is not iterable")
    | some clusters => pure (q.select clusters)
  pure chosen.join

end ClusterRegistry

end AsyncScheduler
