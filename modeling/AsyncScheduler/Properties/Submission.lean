import AsyncScheduler.Properties.CrashConsistency
import AsyncScheduler.Properties.HandOut
import AsyncScheduler.Properties.Idempotency
import AsyncScheduler.Services.TaskSubmission

/-!
# The answer of a submission

A submission stores the row first and asks the queue afterwards.
-/

namespace AsyncScheduler
open QueueKeys TaskCreator

/-- QUEUED is answered only for a task that waits, an error only when there is no row. -/
structure TruthfulAnswer (capability taskId : String) (answer : Except PyErr TaskCreateResponse)
    (w : World) : Prop where
  queued : ∀ response, answer = .ok response → response.status = .queued →
    response.taskId ∈ w.pending capability
  raised : ∀ e, answer = .error e → w.db.tasks.find taskId = none

/-- The id of the request is new, and so is its key if it has one. -/
structure FreshRequest (u : CreateInputs) (req : TaskCreate) (tenantId : String) (w : World) : Prop where
  id : Fresh (newTaskId u req.idempotencyKey) req.taskType w
  key : ∀ key, given req.idempotencyKey = some key → keyedRows tenantId key w = []

def TaskCreate.Storable (req : TaskCreate) (u : CreateInputs) (tenantId : String) : Prop :=
  req.validate = .ok () ∧ req.kwargs.Fits (newTaskId u req.idempotencyKey) tenantId

def QueueManager.HasRoom (q : QueueManager) (capability : String) (r : Store) : Prop :=
  ¬ q.Full capability r ∧
    (KeyEvent.next (r.deadline (pending capability)) (.arrival r.clock q.ttl)).isSome = true

namespace QueueManager
variable {q : QueueManager} {capability taskId : String}

theorem waits_enqueued {w : World} (taskId : String) (score : ℚ) (hf : ¬ q.Full capability w.redis) :
    Waits (w.onRedis (q.enqueued capability taskId score)) capability taskId
      (KeyEvent.next (w.redis.deadline (pending capability)) (.arrival w.redis.clock q.ttl)) := by
  have hs := q.sorted_probed capability w.redis
  have ha := q.luaEnqueue_of_not_full capability taskId score (mt (q.full_probed capability w.redis).mp hf)
  have hw := waits_enqueue (w := w.onRedis (q.probed capability)) ha (.inl rfl : taskId = taskId ∨ _)
  have hd : (w.onRedis (q.probed capability)).redis.deadline (pending capability) =
      w.redis.deadline (pending capability) := Redis.deadline_of_sorted hs _
  have hc : (w.onRedis (q.probed capability)).redis.clock = w.redis.clock :=
    Redis.clock_of_sorted hs
  have hr : (w.onRedis (q.enqueued capability taskId score)).redis = ((w.onRedis (q.probed capability)).exec
        (.queue (.enqueue capability taskId score q.defaultDepth q.ttl))).redis.sadd capabilitiesKey capability :=
    q.enqueued_of_not_full capability taskId score hf
  rw [hd, hc] at hw
  revert hw
  unfold Waits World.pending
  rw [hr]
  exact id

theorem mem_enqueued_iff {score : ℚ} {w : World} (hn : taskId ∉ w.pending capability) :
    taskId ∈ (w.onRedis (q.enqueued capability taskId score)).pending capability ↔
      q.HasRoom capability w.redis := by
  by_cases hf : q.Full capability w.redis
  · have hs : (w.onRedis (q.enqueued capability taskId score)).pending capability = w.pending capability := by
      simp only [World.pending, World.onRedis, q.enqueued_of_full capability taskId score hf]
      exact congrFun (Redis.zsets_of_sorted (q.sorted_probed capability w.redis)) _
    rw [hs]
    exact ⟨fun h => absurd h hn, fun h => absurd hf h.1⟩
  · have hw := waits_enqueued taskId score hf
    rw [HasRoom]
    revert hw
    cases KeyEvent.next (w.redis.deadline (pending capability)) (.arrival w.redis.clock q.ttl) with
    | none => simp [Waits]
    | some d =>
      intro hw
      simp [hf, hw.1]

theorem ends_enqueue_lost (q : QueueManager) (capability taskId : String) (priority : Int) (after : ℚ) (w : World) :
    Ends Command.apply (q.enqueue capability taskId priority after) w (.error connectionLost) w := by
  unfold enqueue refused
  cases q.cb with
  | none => exact .act .ok (.act (.fail false) (.raise _ _))
  | some cb => exact .act (.fail false) (.raise _ _)

end QueueManager

namespace TaskCreator
variable {cr : TaskCreator} {u : CreateInputs} {kw : TaskKwargs} {taskId tenantId : String}
  {key : Option String} {w w' : World}

section
variable (hkey : ∀ k, given key = some k → keyedRows tenantId k w = [])
include hkey

theorem runWith_lookup_new (cr : TaskCreator) (hdb : cr.hasDb = true) :
    (cr.lookup tenantId key).runWith Command.apply .ok w = (.ok none, w) := by
  unfold lookup
  cases hg : given key with
  | none => rfl
  | some k =>
    have hr := hkey k hg
    unfold keyedRows at hr
    simp only [hdb, if_true, findExisting, runWith_session, runWith_await, hr]
    rfl

theorem along_new : Along Command.apply (fun _ => True) (fun r _ => r.idempotentReused = false)
      (cr.createTask u tenantId key kw) w := by
  have ha : CreateAllowed (fun _ => True) kw (newTaskId u key) tenantId :=
    { read := trivial, breaker := fun _ => trivial, register := fun _ => trivial, insert := fun _ => trivial,
      cache := fun _ => trivial, transaction := fun _ _ _ => trivial, enqueue := fun _ _ _ => trivial,
      track := fun _ _ => trivial }
  refine along_exceptException ?_ fun _ _ _ => trivial
  split
  · trivial
  · refine Along.bind (Q := fun existing _ => existing = none) ?_ fun existing w₁ _ hn => ?_
    · have hl : Issues (· = w) (· = .read) (· = none) (cr.lookup tenantId key) := by
        refine issues_lookup (C := (· = .read)) rfl cr rfl fun w' row k hw' hk hro ht hr => ?_
        have hm : row ∈ keyedRows tenantId k w :=
          List.mem_filter.mpr ⟨hw' ▸ hro, by simp [ht, hr]⟩
        rw [hkey k hk] at hm
        exact absurd hm List.not_mem_nil
      refine (Along.of_issues (fun c i w' hc h => ?_) hl rfl).mono (fun _ _ => trivial) fun _ _ h => h.1
      rw [hc, apply_read]
      exact h
    · rw [hn]
      exact (Along.of_issues (J := fun _ => True) (fun _ _ _ _ _ => trivial) (issues_createNew ha cr u)
        trivial).mono (fun _ _ => trivial) fun _ _ h => h.1.2

end

theorem keepsTasks_unfit (hfits : ¬ kw.Fits taskId tenantId) :
    CreateAllowed Command.keepsTasks kw taskId tenantId where
  toEnqueueAllowed := keepsTasks_enqueue
  cache _ := keepsTasks_of_ne_commit fun _ h => nomatch h
  transaction _ _ _ := keepsTasks_of_ne_commit fun _ h => nomatch h
  insert priority := by
    intro w
    rw [apply_ok]
    cases hc : w.db.commit w.redis.clock [.insertTask (kw.taskInsert taskId tenantId priority)] with
    | error e => simp only [World.exec, hc]
    | ok db' => exact absurd ((Mysql.commit_taskInsert_iff _ priority).mp ⟨db', hc⟩).1 hfits

theorem keepsTasks_apply {cmd : Command} (h : cmd.keepsTasks) (i : Fault) (w : World) :
    (cmd.apply i w).db.tasks = w.db.tasks := by
  unfold Command.apply
  split
  · exact h w
  · rfl

theorem along_unfit (hdb : cr.hasDb = true) (hpersist : kw.persistToDb.getD true = true)
    (hkey : ∀ k, given key = some k → keyedRows tenantId k w = [])
    (hfits : ¬ kw.Fits (newTaskId u key) tenantId) (hunused : w.db.tasks.find (newTaskId u key) = none) :
    Along Command.apply (fun w' => w'.db.tasks.find (newTaskId u key) = none) (fun _ _ => False)
      (cr.createTask u tenantId key kw) w := by
  have hk : Along Command.apply (fun w' => w'.db.tasks.find (newTaskId u key) = none)
      (fun _ w' => True ∧ w'.db.tasks.find (newTaskId u key) = none) (cr.createTask u tenantId key kw) w :=
    Along.of_issues (fun _ i w' hc h => by rw [keepsTasks_apply hc i w', h])
      (issues_createTask cr u (keepsTasks_unfit hfits)) hunused
  have hro := along_createTask (J := fun _ => True) (w := w) cr u tenantId key hdb hpersist
    (fun _ _ _ _ => trivial) (fun _ _ => trivial) trivial
  have hne : Along Command.apply (fun _ => True) (fun r _ => r.idempotentReused = false)
      (cr.createTask u tenantId key kw) w := along_new hkey
  refine ((hk.and hro).and hne).mono (fun _ h => h.1.1) ?_
  rintro result w' ⟨⟨⟨-, hn⟩, hi⟩, hr⟩
  obtain ⟨-, row, hs, -⟩ := hi hr
  rw [hn] at hs
  cases hs

section
variable (hdb : cr.hasDb = true) (hpersist : kw.persistToDb.getD true = true)
  (hpriority : (TaskPriority.ofValue kw.priorityText).isSome = true) (hfits : kw.Fits taskId tenantId)
  (hunused : w.db.tasks.find taskId = none)
include hdb hpersist hpriority hfits hunused

theorem runWith_store_new (u : CreateInputs) (doc : TaskDoc) : ∃ w', w'.db.tasks.find taskId ≠ none ∧
      (cr.store u kw taskId tenantId doc).runWith Command.apply .ok w = (.ok (), w') := by
  obtain ⟨priority, hv⟩ := Option.isSome_iff_exists.mp hpriority
  obtain ⟨db', hc⟩ := (Mysql.commit_taskInsert_iff w.redis.clock priority).mpr ⟨hfits, hunused⟩
  obtain ⟨row, hr, -⟩ := inserted_of_commit hc
  refine ⟨_, ?_, (runWith_store_eq_ok hdb hpersist).mpr ⟨priority, db', hv, hc, rfl⟩⟩
  exact Option.ne_none_iff_exists'.mpr ⟨row, hr⟩

theorem ends_createNew_lost (u : CreateInputs) : ∃ w', w'.db.tasks.find taskId ≠ none ∧
      Ends Command.apply (cr.createNew u tenantId taskId kw) w (.error connectionLost) w' := by
  obtain ⟨w₁, hr, hs⟩ := runWith_store_new hdb hpersist hpriority hfits hunused u
    (kw.taskDoc taskId tenantId w.redis.clock)
  refine ⟨w₁, hr, ?_⟩
  exact (Ends.of_runWith_eq (runWith_executeAfterMs kw w)).bind ((Ends.of_runWith_eq (runWith_time w)).bind
    ((Ends.of_runWith_eq hs).bind (Ends.bind_error (cr.queueManager.ends_enqueue_lost ..))))

theorem row_createNew (u : CreateInputs) :
    ((cr.createNew u tenantId taskId kw).runWith Command.apply .ok w).2.db.tasks.find taskId ≠ none := by
  have hru := cr.runWith_createNew u kw taskId tenantId w
  obtain ⟨w₁, hr, hs⟩ := runWith_store_new hdb hpersist hpriority hfits hunused u
    (kw.taskDoc taskId tenantId w.redis.clock)
  rw [hru, Prog.runWith_bind_ok hs, tasks_enqueueStored]
  exact hr

end

theorem redis_recordRun (u : CreateInputs) (kw : TaskKwargs) (taskId tenantId : String) (w : World) :
    ((recordRun u kw taskId tenantId).runWith Command.apply .ok w).2.redis = w.redis := by
  have hi : Issues (fun s : World => s.redis = w.redis) (fun c => c = .read ∨ ∃ writes, c = .commit writes)
      (fun _ => True) (recordRun u kw taskId tenantId) :=
    issues_recordRun (.inl rfl) (fun write _ => .inr ⟨[write], rfl⟩) u
  refine (Issues.runWith ?_ hi rfl).1
  rintro c s (rfl | ⟨writes, rfl⟩) hs
  · exact hs
  · rw [apply_ok, redis_commit]
    exact hs

section
variable (hdb : cr.hasDb = true) (hpersist : kw.persistToDb.getD true = true) {result : CreateResult}
include hdb hpersist

theorem redis_createNew (h : (cr.createNew u tenantId taskId kw).runWith Command.apply .ok w = (.ok result, w')) :
    result.taskId = taskId ∧ w'.redis = cr.queueManager.enqueued kw.capabilityName taskId
      (QueueManager.score kw.priorityNumber (afterMs kw w.redis.clock) (toMs w.redis.clock))
      (w.redis.set (taskKey taskId) (.task (kw.taskDoc taskId tenantId w.redis.clock)) (some 86400)) := by
  have ha := (createNew_returns_iff hdb hpersist u w).mp ⟨result, w', h⟩
  rw [cr.runWith_createNew u kw taskId tenantId w] at h
  obtain ⟨_, w₁, hs, he⟩ := Prog.runWith_bind_eq_ok.mp h
  have hr₁ : w₁.redis =
      w.redis.set (taskKey taskId) (.task (kw.taskDoc taskId tenantId w.redis.clock)) (some 86400) := by
    obtain ⟨priority, db', -, -, rfl⟩ := (runWith_store_eq_ok hdb hpersist).mp hs
    rfl
  have had : cr.queueManager.Admits kw.capabilityName w₁.redis := by
    rw [hr₁]
    exact (admits_set _ _ (taskKey_notMem_breakerKeys taskId kw.capabilityName)).mpr ha.admitted
  obtain ⟨answer, han⟩ := cr.queueManager.runWith_enqueue kw.capabilityName taskId kw.priorityNumber
    (afterMs kw w.redis.clock) had
  unfold enqueueStored at he
  rw [Prog.bind_eq, Prog.runWith_bind_ok han] at he
  simp only [hdb, if_true] at he
  obtain ⟨_, w₂, hr, hen⟩ := Prog.runWith_bind_eq_ok.mp he
  have hr₂ := redis_recordRun u kw taskId tenantId
    (w₁.onRedis (cr.queueManager.enqueued kw.capabilityName taskId
      (QueueManager.score kw.priorityNumber (afterMs kw w.redis.clock) (toMs w₁.redis.clock))))
  rw [hr] at hr₂
  cases hen
  refine ⟨rfl, hr₂.trans ?_⟩
  change cr.queueManager.enqueued kw.capabilityName taskId
    (QueueManager.score kw.priorityNumber (afterMs kw w.redis.clock) (toMs w₁.redis.clock)) w₁.redis = _
  rw [hr₁]
  rfl

theorem pending_createNew (hn : taskId ∉ w.pending kw.capabilityName)
    (h : (cr.createNew u tenantId taskId kw).runWith Command.apply .ok w = (.ok result, w')) :
    result.taskId = taskId ∧
      (taskId ∈ w'.pending kw.capabilityName ↔ cr.queueManager.HasRoom kw.capabilityName w.redis) := by
  obtain ⟨hid, hr⟩ := redis_createNew hdb hpersist h
  refine ⟨hid, ?_⟩
  rw [World.pending, hr]
  exact QueueManager.mem_enqueued_iff (w := w.onRedis (·.set (taskKey taskId) _ (some 86400))) hn

end

theorem createTask_returns_iff (hkey : ∀ k, given key = some k → keyedRows tenantId k w = [])
    (hdb : cr.hasDb = true) (hc : kw.capabilityName ≠ "") :
    ((cr.createTask u tenantId key kw).runWith Command.apply .ok w).2 =
        ((cr.createNew u tenantId (newTaskId u key) kw).runWith Command.apply .ok w).2 ∧
      ∀ result w', (cr.createTask u tenantId key kw).runWith Command.apply .ok w = (.ok result, w') ↔
        (cr.createNew u tenantId (newTaskId u key) kw).runWith Command.apply .ok w = (.ok result, w') := by
  have hl := runWith_lookup_new hkey cr hdb
  unfold createTask
  simp only [world_logErrors, runWith_logErrors_eq_ok, if_neg hc, Prog.bind_eq,
    Prog.runWith_bind_ok hl, implies_true, and_self]

end TaskCreator

theorem TaskPriority.ofValue_value (p : TaskPriority) : TaskPriority.ofValue p.value = some p := by
  cases p <;> decide

namespace TaskSubmissionService
variable {cr : TaskCreator} {u : CreateInputs} {req : TaskCreate} {tenantId : String} {w : World}

theorem capabilityName_kwargs (req : TaskCreate) : req.kwargs.capabilityName ≠ "" := by
  intro he
  have hl : 1 ≤ req.kwargs.capabilityName.length := req.taskType_length.1
  rw [he] at hl
  exact absurd hl (by decide)

theorem ofValue_kwargs (req : TaskCreate) : (TaskPriority.ofValue req.kwargs.priorityText).isSome = true :=
  Option.isSome_iff_exists.mpr ⟨req.priority, TaskPriority.ofValue_value req.priority⟩

def answered (tenantId : String) (result : CreateResult) : TaskCreateResponse where
  taskId := result.taskId
  tenantId := tenantId
  status := .queued
  queuePosition := result.queuePosition
  idempotentReused := result.idempotentReused

theorem submit_of_valid (hv : req.validate = .ok ()) : submit cr u req tenantId =
      (cr.createTask u tenantId req.idempotencyKey req.kwargs).bind fun result =>
        .ret (answered tenantId result) := by
  unfold submit
  rw [hv]
  rfl

theorem runWith_submit_ok {result : CreateResult} {w' : World} (hv : req.validate = .ok ())
    (h : (cr.createTask u tenantId req.idempotencyKey req.kwargs).runWith Command.apply .ok w = (.ok result, w')) :
    (submit cr u req tenantId).runWith Command.apply .ok w = (.ok (answered tenantId result), w') := by
  rw [submit_of_valid hv, Prog.runWith_bind_ok h]
  rfl

theorem runWith_submit_error {e : PyErr} {w' : World} (hv : req.validate = .ok ())
    (h : (cr.createTask u tenantId req.idempotencyKey req.kwargs).runWith Command.apply .ok w = (.error e, w')) :
    (submit cr u req tenantId).runWith Command.apply .ok w = (.error e, w') := by
  rw [submit_of_valid hv, Prog.runWith_bind, h]

section
variable (hdb : cr.hasDb = true) (hfresh : FreshRequest u req tenantId w)
include hdb hfresh

theorem truthful_of_not_storable {answer : Except PyErr TaskCreateResponse} {w' : World}
    (hs : ¬ req.Storable u tenantId) (he : Ends Command.apply (submit cr u req tenantId) w answer w') :
    TruthfulAnswer req.taskType (newTaskId u req.idempotencyKey) answer w' := by
  cases hv : req.validate with
  | error e =>
    have hr : submit cr u req tenantId = .raise e := by
      unfold submit
      rw [hv]
    rw [hr] at he
    cases he
    exact ⟨fun _ h => (nomatch h), fun _ _ => hfresh.id.1⟩
  | ok _ =>
    have hfits : ¬ req.kwargs.Fits (newTaskId u req.idempotencyKey) tenantId := fun h => hs ⟨hv, h⟩
    have ha : Along Command.apply (fun w' => w'.db.tasks.find (newTaskId u req.idempotencyKey) = none)
        (fun _ _ => False) (submit cr u req tenantId) w := by
      rw [submit_of_valid hv]
      exact (along_unfit hdb rfl hfresh.key hfits hfresh.id.1).bind fun _ _ _ h => h.elim
    constructor
    · rintro response rfl -
      exact (ha.ends_ok he).elim
    · exact fun _ _ => ha.ends he

theorem untruthful_of_storable (hs : req.Storable u tenantId) :
    ∃ answer w', Ends Command.apply (submit cr u req tenantId) w answer w' ∧
      ¬ TruthfulAnswer req.taskType (newTaskId u req.idempotencyKey) answer w' := by
  obtain ⟨hv, hfits⟩ := hs
  obtain ⟨w', hr, hc⟩ :=
    ends_createNew_lost hdb rfl (ofValue_kwargs req) hfits hfresh.id.1 u
  have hl := Ends.of_runWith_eq (runWith_lookup_new hfresh.key cr hdb)
  refine ⟨.error (.systemError "Connection lost"), w', ?_, fun h => hr (h.raised _ rfl)⟩
  rw [submit_of_valid hv]
  refine Ends.bind_error ?_
  unfold createTask logErrors exceptException
  rw [if_neg (capabilityName_kwargs req)]
  exact (hl.bind hc).handle (.raise _ _)

theorem truthful_undisturbed_iff (hs : req.Storable u tenantId) :
    TruthfulAnswer req.taskType (newTaskId u req.idempotencyKey)
        ((submit cr u req tenantId).runWith Command.apply .ok w).1
        ((submit cr u req tenantId).runWith Command.apply .ok w).2 ↔
      cr.queueManager.Admits req.taskType w.redis ∧ cr.queueManager.HasRoom req.taskType w.redis := by
  obtain ⟨hv, hfits⟩ := hs
  have hpersist : req.kwargs.persistToDb.getD true = true := rfl
  have hn : newTaskId u req.idempotencyKey ∉ w.pending req.kwargs.capabilityName := hfresh.id.2.2
  obtain ⟨hw, hok⟩ := createTask_returns_iff (u := u) hfresh.key hdb (capabilityName_kwargs req)
  obtain ⟨outcome, w', hru⟩ : ∃ outcome w',
      (cr.createTask u tenantId req.idempotencyKey req.kwargs).runWith Command.apply .ok w = (outcome, w') :=
    ⟨_, _, rfl⟩
  cases outcome with
  | ok result =>
    have hc := (hok result w').mp hru
    have ha := (createNew_returns_iff hdb hpersist u w).mp ⟨result, w', hc⟩
    obtain ⟨hid, hp⟩ := pending_createNew hdb hpersist hn hc
    rw [runWith_submit_ok hv hru]
    constructor
    · intro h
      have hm : result.taskId ∈ w'.pending req.taskType := h.queued (answered tenantId result) rfl rfl
      rw [hid] at hm
      exact ⟨ha.admitted, hp.mp hm⟩
    · rintro ⟨-, hro⟩
      refine ⟨?_, fun _ h => nomatch h⟩
      rintro response hr -
      cases hr
      have hm := hp.mpr hro
      rw [← hid] at hm
      exact hm
  | error e =>
    have hrow := row_createNew hdb hpersist (ofValue_kwargs req) hfits hfresh.id.1 u
    rw [← hw, hru] at hrow
    rw [runWith_submit_error hv hru]
    constructor
    · exact fun h => absurd (h.raised e rfl) hrow
    · rintro ⟨had, -⟩
      obtain ⟨result, w₁, hc⟩ := (createNew_returns_iff hdb hpersist u w).mpr
        ⟨ofValue_kwargs req, hfits, hfresh.id.1, had, fun _ h => nomatch h⟩
      rw [(hok result w₁).mpr hc] at hru
      cases hru

end

end TaskSubmissionService

open TaskSubmissionService

def TaskCreate.gpu : TaskCreate := { taskType := "gpu" }

def TaskCreator.narrow : TaskCreator := { hasDb := true, queueManager := { defaultDepth := 1 } }

def TaskCreator.guarded : TaskCreator := { hasDb := true, queueManager := { cb := some {} } }

def World.breakerOpen : World :=
  World.empty.onRedis (·.set (breakerStateKey "gpu") (.text "open") (some 60))

end AsyncScheduler
