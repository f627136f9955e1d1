import AsyncScheduler.Shared.Codec

/-!
# Capabilities

The registration of a capability and its JSON form.
-/

namespace AsyncScheduler

inductive CapabilityType where
  | rayActor | rayServe | flaskHttp | rayTask
  deriving DecidableEq, Repr

def CapabilityType.value : CapabilityType → String
  | .rayActor => "ray_actor"
  | .rayServe => "ray_serve"
  | .flaskHttp => "flask_http"
  | .rayTask => "ray_task"

inductive HealthStatus where
  | healthy | degraded | unhealthy
  deriving DecidableEq, Repr

def HealthStatus.value : HealthStatus → String
  | .healthy => "healthy"
  | .degraded => "degraded"
  | .unhealthy => "unhealthy"

/-- The fields of an `ActorConfig` before they are validated. -/
structure ActorSettings where
  modulePath : String := ""
  artifactUrl : String := ""
  artifactSha256 : String := ""
  entrypoint : String := ""
  numActors : Int := 1
  autoCreatePool : Bool := true
  elasticEnabled : Bool := true
  warmupEnabled : Bool := false
  warmupPayload : JsonObj := [("_warmup", .bool true)]
  warmupTimeoutSeconds : Int := 120
  resourcesPerActor : JsonObj := []
  actorOptions : JsonObj := []
  workerInitConfig : JsonObj := []
  runtimeEnv : JsonObj := []
  schedulingResources : List (String × ℚ) := []
  qpsLimit : Option ℚ := none
  maxConcurrent : Option Int := none
  preemptible : Bool := false
  preemptibleMinSize : Int := 0
  deriving DecidableEq

/-- The bound of `num_actors` and `validate_artifact_and_limits`. -/
def ActorSettings.valid (s : ActorSettings) : Bool :=
  1 ≤ s.numActors &&
  (s.artifactUrl = "" || s.entrypoint ≠ "" && (s.artifactSha256 = "" || s.artifactSha256.length = 64)) &&
  s.qpsLimit.all (0 < ·) && s.maxConcurrent.all (0 < ·)

structure ActorConfig extends ActorSettings where
  validated : toActorSettings.valid = true
  deriving DecidableEq

structure FlaskConfig where
  baseUrl : String := ""
  generateEndpoint : String := ""
  healthEndpoint : String := "/health"
  deriving DecidableEq, Repr

structure HealthCheckConfig where
  intervalSeconds : Int := 30
  timeoutSeconds : Int := 10
  unhealthyThreshold : Int := 3
  healthyThreshold : Int := 2
  deriving DecidableEq, Repr

structure CapabilityInfo where
  capabilityName : String
  capabilityType : CapabilityType := .rayActor
  clusterId : String := ""
  version : String := "1.0.0"
  actorConfig : Option ActorConfig := none
  flaskConfig : Option FlaskConfig := none
  healthCheck : HealthCheckConfig := {}
  healthStatus : HealthStatus := .healthy
  tags : List String := []
  tenantId : String := ""
  description : String := ""
  deriving DecidableEq

def CapabilityType.codec : Codec CapabilityType := .enum value [.rayActor, .rayServe, .flaskHttp, .rayTask]

def HealthStatus.codec : Codec HealthStatus := .enum value [.healthy, .degraded, .unhealthy]

instance : CapabilityType.codec.Lawful := Codec.lawful_enum fun a => by cases a <;> decide

instance : HealthStatus.codec.Lawful := Codec.lawful_enum fun a => by cases a <;> decide

namespace ActorConfig

def fields :=
  Fields.cons "module_path" .str (some "") <|
  Fields.cons "artifact_url" .str (some "") <|
  Fields.cons "artifact_sha256" .str (some "") <|
  Fields.cons "entrypoint" .str (some "") <|
  Fields.cons "num_actors" .int (some 1) <|
  Fields.cons "auto_create_pool" .bool (some true) <|
  Fields.cons "elastic_enabled" .bool (some true) <|
  Fields.cons "warmup_enabled" .bool (some false) <|
  Fields.cons "warmup_payload" (.dict .any) (some [("_warmup", .bool true)]) <|
  Fields.cons "warmup_timeout_seconds" .int (some 120) <|
  Fields.cons "resources_per_actor" (.dict .any) (some []) <|
  Fields.cons "actor_options" (.dict .any) (some []) <|
  Fields.cons "worker_init_config" (.dict .any) (some []) <|
  Fields.cons "runtime_env" (.dict .any) (some []) <|
  Fields.cons "scheduling_resources" (.dict .float) (some []) <|
  Fields.cons "qps_limit" (.optional .float) (some none) <|
  Fields.cons "max_concurrent" (.optional .int) (some none) <|
  Fields.cons "preemptible" .bool (some false) <|
  Fields.cons "preemptible_min_size" .int (some 0) Fields.nil

instance : fields.Lawful := by
  unfold fields
  infer_instance

def codec : Codec ActorConfig :=
  .record fields
    (fun c => (c.modulePath, c.artifactUrl, c.artifactSha256, c.entrypoint, c.numActors, c.autoCreatePool,
      c.elasticEnabled, c.warmupEnabled, c.warmupPayload, c.warmupTimeoutSeconds, c.resourcesPerActor, c.actorOptions,
      c.workerInitConfig, c.runtimeEnv, c.schedulingResources, c.qpsLimit, c.maxConcurrent, c.preemptible,
      c.preemptibleMinSize, ()))
    (fun (modulePath, artifactUrl, artifactSha256, entrypoint, numActors, autoCreatePool, elasticEnabled,
        warmupEnabled, warmupPayload, warmupTimeoutSeconds, resourcesPerActor, actorOptions, workerInitConfig,
        runtimeEnv, schedulingResources, qpsLimit, maxConcurrent, preemptible, preemptibleMinSize, ()) =>
      let settings : ActorSettings :=
        ⟨modulePath, artifactUrl, artifactSha256, entrypoint, numActors, autoCreatePool, elasticEnabled,
          warmupEnabled, warmupPayload, warmupTimeoutSeconds, resourcesPerActor, actorOptions, workerInitConfig,
          runtimeEnv, schedulingResources, qpsLimit, maxConcurrent, preemptible, preemptibleMinSize⟩
      if h : settings.valid = true then some ⟨settings, h⟩ else none)

instance : codec.Lawful := by
  refine Codec.lawful_record (by decide) (fun c => ?_) fun b c h => ?_
  · exact dif_pos c.validated
  · simp only [Option.dite_none_right_eq_some, Option.some.injEq] at h
    obtain ⟨hvalid, rfl⟩ := h
    rfl

instance : codec.Solid := Codec.solid_record

end ActorConfig

namespace FlaskConfig

def fields :=
  Fields.cons "base_url" .str (some "") <|
  Fields.cons "generate_endpoint" .str (some "") <|
  Fields.cons "health_endpoint" .str (some "/health") Fields.nil

instance : fields.Lawful := by
  unfold fields
  infer_instance

def codec : Codec FlaskConfig :=
  .record fields (fun c => (c.baseUrl, c.generateEndpoint, c.healthEndpoint, ()))
    (fun (baseUrl, generateEndpoint, healthEndpoint, ()) => some ⟨baseUrl, generateEndpoint, healthEndpoint⟩)

instance : codec.Lawful := Codec.lawful_record (by decide) (fun _ => rfl) fun _ _ h => by cases h; rfl

instance : codec.Solid := Codec.solid_record

end FlaskConfig

namespace HealthCheckConfig

def fields :=
  Fields.cons "interval_seconds" .int (some 30) <|
  Fields.cons "timeout_seconds" .int (some 10) <|
  Fields.cons "unhealthy_threshold" .int (some 3) <|
  Fields.cons "healthy_threshold" .int (some 2) Fields.nil

instance : fields.Lawful := by
  unfold fields
  infer_instance

def codec : Codec HealthCheckConfig :=
  .record fields (fun c => (c.intervalSeconds, c.timeoutSeconds, c.unhealthyThreshold, c.healthyThreshold, ()))
    (fun (interval, timeout, unhealthy, healthy, ()) => some ⟨interval, timeout, unhealthy, healthy⟩)

instance : codec.Lawful := Codec.lawful_record (by decide) (fun _ => rfl) fun _ _ h => by cases h; rfl

end HealthCheckConfig

namespace CapabilityInfo

def fields :=
  Fields.cons "capability_name" .str none <|
  Fields.cons "capability_type" CapabilityType.codec (some .rayActor) <|
  Fields.cons "cluster_id" .str (some "") <|
  Fields.cons "version" .str (some "1.0.0") <|
  Fields.cons "actor_config" ActorConfig.codec.optional (some none) <|
  Fields.cons "flask_config" FlaskConfig.codec.optional (some none) <|
  Fields.cons "health_check" HealthCheckConfig.codec (some {}) <|
  Fields.cons "health_status" HealthStatus.codec (some .healthy) <|
  Fields.cons "tags" (.list .str) (some []) <|
  Fields.cons "tenant_id" .str (some "") <|
  Fields.cons "description" .str (some "") Fields.nil

instance : fields.Lawful := by
  unfold fields
  infer_instance

def parts (c : CapabilityInfo) :=
  (c.capabilityName, c.capabilityType, c.clusterId, c.version, c.actorConfig, c.flaskConfig, c.healthCheck,
    c.healthStatus, c.tags, c.tenantId, c.description, ())

/-- `model_dump` and `model_validate`. -/
def codec : Codec CapabilityInfo :=
  .record fields parts
    (fun (name, type, clusterId, version, actorConfig, flaskConfig, healthCheck, healthStatus, tags, tenantId,
        description, ()) =>
      some ⟨name, type, clusterId, version, actorConfig, flaskConfig, healthCheck, healthStatus, tags, tenantId,
        description⟩)

instance : codec.Lawful := Codec.lawful_record (by decide) (fun _ => rfl) fun _ _ h => by cases h; rfl

end CapabilityInfo

end AsyncScheduler
