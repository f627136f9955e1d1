import AsyncScheduler.Models.Node
import AsyncScheduler.Platform.CapabilityRegistry

/-!
# Node registry

Nodes are items of the global tenant, with a sorted set of their heartbeats and a lease for each
that is reserved.
-/

namespace AsyncScheduler

namespace NodeRegistry

def base : BaseRegistry := ⟨"node", 0⟩

def heartbeatZset : String := "nodes:heartbeat"

def leaseKey (nodeId : String) : String := "node_lease:" ++ nodeId

def nodeIndexKey : String := "nodes:all"

def nodeKey (nodeId : String) : String := base.makeKey globalTenant nodeId

/-- `registered_at` is among the fields of the model, so its default is never taken. -/
def register (nodeInfo : NodeInfo) : RecordPy Unit :=
  logExternalErrors do
    let now ← RecordPy.now
    let _ ← base.setRecord globalTenant nodeInfo.nodeId (NodeInfo.codec.enc { nodeInfo with lastHeartbeat := now })
    RecordPy.sadd nodeIndexKey nodeInfo.nodeId
    RecordPy.zadd heartbeatZset now nodeInfo.nodeId

/-- What `get` returns for a record that is there. -/
inductive NodeData where
  | model (node : NodeInfo)
  | raw (data : JsonValue)
  deriving DecidableEq

def get (tenantId itemId : String) : RecordPy (Option NodeData) := do
  let data ← base.getRecord tenantId itemId
  pure (data.map fun data =>
    match NodeInfo.codec.dec data with
    | some node => .model node
    | none => .raw data)

def getNode (nodeId : String) : RecordPy (Option NodeInfo) :=
  base.getModel NodeInfo.codec "NodeInfo" globalTenant nodeId

/-- `data[name] = value` for each of the fields, of a dictionary only. -/
def setItems (data : NodeData) (fields : JsonObj) : RecordPy JsonValue :=
  match data with
  | .model _ => .raise (.typeError "'NodeInfo' object does not support item assignment")
  | .raw (.obj old) => .ret (.obj (JsonValue.assignAll old fields))
  | .raw (.arr _) => .raise (.typeError "list indices must be integers or slices, not str")
  | .raw _ => .raise (.typeError "object does not support item assignment")

/-- The fields that a heartbeat sets; an empty dictionary of resources counts as none. -/
def heartbeatFields (now : ℚ) (resources : Option JsonObj) : JsonObj :=
  ("last_heartbeat", .num now) ::
    match resources with
    | some (r :: rest) => [("resources", .obj (r :: rest))]
    | _ => []

def heartbeat (nodeId : String) (resources : Option JsonObj := none) : RecordPy (Option Unit) :=
  suppressErrors do
    let now ← RecordPy.now
    let data ← get globalTenant nodeId
    match data with
    | none => pure ()
    | some data =>
      let value ← setItems data (heartbeatFields now resources)
      let _ ← base.setRecord globalTenant nodeId value
      RecordPy.zadd heartbeatZset now nodeId

def reserveNode (number : ℚ → ℚ) (leaseTtlMs : Int) (nodeId clusterId : String) : RecordPy Bool :=
  logExternalErrors do
    awaiting (.reserve (nodeKey nodeId) (leaseKey nodeId) clusterId leaseTtlMs) fun r =>
      (luaReserve number (nodeKey nodeId) (leaseKey nodeId) clusterId leaseTtlMs r).1
    pure true

def updateState (nodeId : String) (state : NodeState) (extra : JsonObj) : RecordPy Unit := do
  let data ← get globalTenant nodeId
  match data with
  | none => pure ()
  | some data =>
    let value ← setItems data (("state", .str state.value) :: extra)
    let _ ← base.setRecord globalTenant nodeId value
    pure ()

def markJoined (nodeId : String) (rayNodeIp : String := "") : RecordPy Unit :=
  updateState nodeId .joined [("ray_node_ip", .str rayNodeIp)]

def markReleased (nodeId : String) : RecordPy Unit := do
  updateState nodeId .idle [("cluster_id", .str "")]
  let _ ← RecordPy.delete (leaseKey nodeId)
  pure ()

def markDraining (nodeId : String) : RecordPy Unit := updateState nodeId .draining []

def markOffline (nodeId : String) : RecordPy Unit := do
  updateState nodeId .offline []
  RecordPy.zrem heartbeatZset nodeId

def markAllOffline : List String → RecordPy Unit
  | [] => pure ()
  | nodeId :: rest => do
    markOffline nodeId
    markAllOffline rest

def detectDeadNodes (timeoutSeconds : ℚ := 60) : RecordPy (Option (List String)) :=
  suppressErrors do
    let now ← RecordPy.now
    let deadIds ← RecordPy.zrangeTo heartbeatZset (now - timeoutSeconds)
    markAllOffline deadIds
    pure deadIds

end NodeRegistry

end AsyncScheduler
