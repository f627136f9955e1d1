import AsyncScheduler.Models.Node
import AsyncScheduler.Platform.World

/-!
# Node agent

The ownership protocol of a node: one key per node, taken with `SET NX EX`, and renewed and released
by scripts that compare the stored instance.
-/

namespace AsyncScheduler

namespace NodeAgent

def ownerKey (nodeId : String) : String := "agent_owner:" ++ nodeId

def ownerTtl : ℚ := 30

def acquireOwnership (nodeId instanceId : String) : Py Bool :=
  await (.keys [(ownerKey nodeId, .setNx (.text instanceId) ownerTtl)]) fun w =>
    .ok !w.redis.existsKey (ownerKey nodeId)

def renewOwnership (nodeId instanceId : String) : Py Bool :=
  await (.keys [(ownerKey nodeId, .renew (.text instanceId) ownerTtl)]) fun w =>
    .ok (luaRenew (ownerKey nodeId) (.text instanceId) ownerTtl w.redis).1

def releaseOwnership (nodeId instanceId : String) : Py Bool :=
  await (.keys [(ownerKey nodeId, .release (.text instanceId))]) fun w =>
    .ok (luaLockRelease (ownerKey nodeId) (.text instanceId) w.redis).1

end NodeAgent

structure AgentState where
  state : NodeState := .idle
  clusterId : String := ""
  rayHeadAddress : String := ""
  deriving DecidableEq, Repr

namespace AgentState

def transition (s : AgentState) (newState : NodeState) (clusterId : String := s.clusterId)
    (rayHeadAddress : String := s.rayHeadAddress) : AgentState := ⟨newState, clusterId, rayHeadAddress⟩

/-- `invite` up to its first suspension, given whether Ray could be started. -/
def invite (req : InvitationRequest) (started : Bool) (s : AgentState) : AgentState :=
  if s.state ≠ .idle ∧ s.state ≠ .reserved then s
  else
    let joining := s.transition .joining req.clusterId req.rayHeadAddress
    if started then joining.transition .joined else joining.transition .idle "" ""

def waits (req : ReleaseRequest) (s : AgentState) : Bool := req.graceful ∧ s.state = .draining

def release (s : AgentState) : AgentState := s.transition .idle "" ""

def drain (s : AgentState) : AgentState := if s.state ≠ .joined then s else s.transition .draining

end AgentState

inductive AgentCommand where
  | invite (req : InvitationRequest)
  /-- `release` up to its first suspension. -/
  | arrive (req : ReleaseRequest)
  /-- `release` after the wait. -/
  | release (req : ReleaseRequest)
  | drain (req : DrainRequest)
  | sleep
  /-- A call of the node registry. -/
  | report
  deriving DecidableEq

/-- The input of an invitation is whether Ray could be started, that of an awaited call whether it
returns. -/
def AgentCommand.apply (c : AgentCommand) (i : Bool) (s : AgentState) : AgentState :=
  match c with
  | .invite req => s.invite req i
  | .arrive req => if s.waits req then s else s.release
  | .release _ => s.release
  | .drain _ => s.drain
  | .sleep | .report => s

abbrev AgentPy := Prog AgentCommand Bool AgentState PyErr

structure AgentApp where
  nodeId : String
  host : String
  hasRegistry : Bool

inductive AgentRequest where
  | invite (req : InvitationRequest)
  | release (req : ReleaseRequest)
  | drain (req : DrainRequest)
  deriving DecidableEq

namespace AgentApp
variable (app : AgentApp)

def awaited (c : AgentCommand) : AgentPy Unit := .act c fun i _ => if i then .ret () else .raise connectionLost

def report : AgentPy Unit := if app.hasRegistry then awaited .report else .ret ()

def invite (req : InvitationRequest) : AgentPy InvitationResponse :=
  .act (.invite req) fun started s =>
    if s.state ≠ .idle ∧ s.state ≠ .reserved then
      .ret { nodeId := app.nodeId, reason := "node in state " ++ s.state.value ++ ", cannot accept invitation" }
    else if started then do
      app.report
      pure { nodeId := app.nodeId, accepted := true, rayNodeIp := app.host }
    else
      .ret { nodeId := app.nodeId, reason := "ray start failed" }

def release (req : ReleaseRequest) : AgentPy String :=
  .act (.arrive req) fun _ s =>
    if s.waits req then do
      awaited .sleep
      .act (.release req) fun _ _ => do
        app.report
        pure app.nodeId
    else do
      app.report
      pure app.nodeId

def drain (req : DrainRequest) : AgentPy String :=
  .act (.drain req) fun _ s =>
    if s.state ≠ .joined then .raise (.httpException 400 ("Cannot drain node in state " ++ s.state.value))
    else do
      app.report
      pure app.nodeId

def program : AgentRequest → AgentPy Unit
  | .invite req => (app.invite req).void
  | .release req => (app.release req).void
  | .drain req => (app.drain req).void

def system : System AgentCommand Bool AgentState PyErr AgentRequest Empty where
  apply := AgentCommand.apply
  program := app.program
  ambient e := nomatch e

end AgentApp

end AsyncScheduler
