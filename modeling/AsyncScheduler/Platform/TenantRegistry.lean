import AsyncScheduler.Common.Sha256
import AsyncScheduler.Platform.BaseRegistry
import AsyncScheduler.Shared.Footprint

/-!
# Tenant registry

Tenants are items of the base registry.
-/

namespace AsyncScheduler

inductive PipelineOp where
  | hset (key field value : String)
  | hdel (key field : String)
  | sadd (key member : String)
  | srem (key member : String)
  | delete (key : String)
  deriving DecidableEq

namespace PipelineOp

def exec (r : Keyspace Stored) : PipelineOp → Keyspace Stored
  | .hset k f v => (r.hset k f v).getD r
  | .hdel k f => (r.hdel k f).getD r
  | .sadd k m => (r.sadd k m).getD r
  | .srem k m => (r.srem k m).getD r
  | .delete k => r.del k

/-- How many entries the command has added or removed; `none` is an error. -/
def reply (r : Keyspace Stored) : PipelineOp → Option Nat
  | .hset k f _ => (r.hgetall k).map fun fs => if (fs.lookup f).isSome then 0 else 1
  | .hdel k f => (r.hgetall k).map fun fs => if (fs.lookup f).isSome then 1 else 0
  | .sadd k m => (r.smembers k).map fun ms => if m ∈ ms then 0 else 1
  | .srem k m => (r.smembers k).map fun ms => if m ∈ ms then 1 else 0
  | .delete k => some (if r.existsKey k then 1 else 0)

def execAll (r : Keyspace Stored) (ops : List PipelineOp) : Keyspace Stored := ops.foldl exec r

/-- The replies in order; the first error among them is raised once all commands were executed. -/
def replies (r : Keyspace Stored) : List PipelineOp → Except PyErr (List Nat)
  | [] => .ok []
  | op :: ops =>
    match op.reply r, replies (op.exec r) ops with
    | some n, .ok ns => .ok (n :: ns)
    | _, _ => .error wrongType

end PipelineOp

inductive TenantCommand where
  | base (c : ControlCommand)
  | pipeline (ops : List PipelineOp)
  deriving DecidableEq

def TenantCommand.apply : TenantCommand → Fault → ControlWorld → ControlWorld
  | .base c, i, w => c.apply i w
  | .pipeline ops, i, w => if i.applied then w.onRedis (PipelineOp.execAll · ops) else w

abbrev TenantPy := Prog TenantCommand Fault ControlWorld PyErr

def executePipeline (ops : List PipelineOp) : TenantPy (List Nat) :=
  awaiting (.pipeline ops) fun w => PipelineOp.replies w.redis ops

structure TenantRegistry where
  ttl : Int := 0
  deriving DecidableEq, Repr

namespace TenantRegistry
variable (reg : TenantRegistry)

def base : BaseRegistry := ⟨"tenant", reg.ttl⟩

def apiKeysHash : String := "tenant:api_keys"

def apiKeyIdx (tenantId : String) : String := "tenant:api_keys_idx:" ++ tenantId

/-- An id that is no string is written as text; of those that the client cannot send, the record is
stored before the index refuses it. -/
def register (tenantInfo : Dict) : TenantPy Bool :=
  let tid := tenantInfo.getD "tenant_id" (.str "")
  if !tid.truthy then .raise (.valueError "tenant_id is required")
  else
    match tid.encoded with
    | some id => (reg.base.set id id (.dict tenantInfo)).embed .base
    | none => (logExternalErrors do
        let _ ← Control.set (reg.base.makeKey tid.pyStr tid.pyStr) (.dict tenantInfo) false reg.base.ex
        .raise (.dataError "Invalid input of type")).embed .base

def unregister (tenantId : String) : TenantPy (Option Bool) := do
  let keyHashes ← (Control.smembers (apiKeyIdx tenantId)).embed TenantCommand.base
  if keyHashes ≠ [] then
    let _ ← executePipeline (keyHashes.map (.hdel apiKeysHash) ++ [.delete (apiKeyIdx tenantId)])
    (reg.base.delete tenantId tenantId).embed .base
  else
    (reg.base.delete tenantId tenantId).embed .base

/-- `secrets.token_urlsafe` is an input. -/
def rawKey (token : String) : String := "ramu_" ++ token

def generateApiKey (_ : TenantRegistry) (tenantId token : String) : TenantPy String := do
  let keyHash := Sha256.hexdigest (rawKey token)
  let _ ← executePipeline [.hset apiKeysHash keyHash tenantId, .sadd (apiKeyIdx tenantId) keyHash]
  pure (rawKey token)

def verifyApiKeyHash (_ : TenantRegistry) (apiKey : String) : TenantPy (Option String) :=
  (Control.hget apiKeysHash (Sha256.hexdigest apiKey)).embed .base

def revokeApiKey (_ : TenantRegistry) (tenantId apiKey : String) : TenantPy Bool := do
  let keyHash := Sha256.hexdigest apiKey
  let results ← executePipeline [.hdel apiKeysHash keyHash, .srem (apiKeyIdx tenantId) keyHash]
  pure (results.headD 0 ≠ 0)

end TenantRegistry

end AsyncScheduler
