import AsyncScheduler.Models.Capability
import AsyncScheduler.Platform.QueueKeys
import AsyncScheduler.Platform.RecordStore

/-!
# Capability registry

Capabilities are items of the global tenant. The health of one is a state machine whose counters are
in a hash; its status is copied into the record.
-/

namespace AsyncScheduler

def globalTenant : String := "_global_"

theorem BaseRegistry.makeKey_globalTenant_ne (reg : BaseRegistry) (i t : String) :
    reg.makeKey globalTenant i ≠ reg.indexKey t := by
  rw [Ne, reg.makeKey_eq_indexKey, globalTenant]
  exact append_ne 0 (by decide) (by decide) (by decide) _ _

namespace CapabilityRegistry

def base : BaseRegistry := ⟨"capability", 0⟩

def capIndex : String := "capabilities:all"

def healthKey (name : String) : String := "capability_health:" ++ name

def capKey (name : String) : String := base.makeKey globalTenant name

def register (cap : CapabilityInfo) : RecordPy Unit :=
  logExternalErrors do
    let _ ← base.setRecord globalTenant cap.capabilityName (CapabilityInfo.codec.enc cap)
    RecordPy.sadd capIndex cap.capabilityName
    RecordPy.hset (healthKey cap.capabilityName)
      [("status", cap.healthStatus.value), ("consec_ok", "0"), ("consec_fail", "0")]

/-- The item is validated by `get`; a model that is validated again stays as it is. -/
def getCapability (name : String) : RecordPy (Option CapabilityInfo) :=
  base.getModel CapabilityInfo.codec "CapabilityInfo" globalTenant name

def runUpdateHealth (number : ℚ → ℚ) (name : String) (success : Bool) (unhealthyThreshold healthyThreshold : Int) :
    RecordPy String :=
  awaiting (.updateHealth (healthKey name) (capKey name) success unhealthyThreshold healthyThreshold) fun r =>
    (luaUpdateHealth number (healthKey name) (capKey name) success unhealthyThreshold healthyThreshold r).1

/-- `HealthStatus(status_str)`. -/
def healthStatus (s : String) : RecordPy HealthStatus :=
  match HealthStatus.codec.dec (.str s) with
  | some status => .ret status
  | none => .raise (.valueError ("'" ++ s ++ "' is not a valid HealthStatus"))

def updateHealth (number : ℚ → ℚ) (name : String) (success : Bool) (unhealthyThreshold : Int := 3)
    (healthyThreshold : Int := 2) : RecordPy HealthStatus :=
  logExternalErrors do
    let result ← runUpdateHealth number name success unhealthyThreshold healthyThreshold
    healthStatus result

end CapabilityRegistry

end AsyncScheduler
