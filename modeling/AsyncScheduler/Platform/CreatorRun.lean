import AsyncScheduler.Platform.CreatorFootprint
import AsyncScheduler.Platform.QueueRun

/-!
# An undisturbed creation

When no call of a creation fails, it succeeds exactly when the arguments fit the table, the id is
not taken and the circuit breaker admits the capability.
-/

namespace AsyncScheduler
open List Prog Mysql

variable {α : Type} {w w' : World} {a : α}

theorem runWith_logErrors_eq_ok {p : Py α} : (logErrors p).runWith Command.apply .ok w = (.ok a, w') ↔
      p.runWith Command.apply .ok w = (.ok a, w') := by
  unfold logErrors
  rw [runWith_exceptException]
  obtain ⟨outcome, w₁⟩ := p.runWith Command.apply .ok w
  cases outcome with
  | ok b => rfl
  | error e => by_cases he : e.isException = true <;> simp [he]

theorem world_logErrors (p : Py α) (w : World) :
    ((logErrors p).runWith Command.apply .ok w).2 = (p.runWith Command.apply .ok w).2 := by
  unfold logErrors
  rw [runWith_exceptException]
  obtain ⟨outcome, w₁⟩ := p.runWith Command.apply .ok w
  cases outcome with
  | ok b => rfl
  | error e => by_cases he : e.isException = true <;> simp [he]

theorem runWith_commit_eq_ok {writes : List DbWrite} :
    (commit writes).runWith Command.apply .ok w = (.ok (), w') ↔
      ∃ db', w.db.commit w.redis.clock writes = .ok db' ∧ w' = { w with db := db' } := by
  unfold commit
  rw [runWith_await]
  cases h : w.db.commit w.redis.clock writes with
  | error e => simp
  | ok db' => simp [World.exec, h, eq_comm]

structure TaskKwargs.Fits (kw : TaskKwargs) (taskId tenantId : String) : Prop where
  taskId : taskId.length ≤ 64
  tenantId : tenantId.length ≤ 64
  taskType : kw.capabilityName.length ≤ 128
  callbackUrl : (kw.callbackUrl.getD "").length ≤ 512
  cronExpr : (kw.cronExpr.getD "").length ≤ 64

theorem slice_length_le (s : String) (n : Nat) : (slice s n).length ≤ n := by
  simp [slice]

theorem TaskInsert.exists_toRow_iff {record : TaskInsert} {now : ℚ} :
    (∃ row, record.toRow now = .ok row) ↔ record.taskType.isSome ∧
      (∀ column ∈ record.columns, column.2.2.length ≤ column.2.1) ∧
      (TaskStatus.ofText record.status).isSome := by
  constructor
  · rintro ⟨row, h⟩
    unfold toRow at h
    split at h
    · cases h
    · rename_i ht
      split at h
      · cases h
      · rename_i hf
        split at h
        · cases h
        · rename_i hs
          exact ⟨by simp [ht], by simpa using hf, by simp [hs]⟩
  · rintro ⟨ht, hf, hs⟩
    cases h : record.toRow now with
    | ok row => exact ⟨row, rfl⟩
    | error e =>
      -- each of the three refusals contradicts one of the conditions
      unfold toRow at h
      split at h
      · rename_i hn
        simp [hn] at ht
      · split at h
        · rename_i hfo
          have hl := List.find?_some hfo
          have hsh := hf _ (mem_of_find?_eq_some hfo)
          simp only [decide_eq_true_eq] at hl
          exact absurd hsh (Nat.not_le.mpr hl)
        · split at h
          · rename_i hn
            simp [hn] at hs
          · cases h

namespace Mysql
variable {db : Mysql} {kw : TaskKwargs} {taskId tenantId : String} (now : ℚ) (priority : TaskPriority)

theorem toRow_taskInsert_iff :
    (∃ row, (kw.taskInsert taskId tenantId priority).toRow now = .ok row) ↔ kw.Fits taskId tenantId := by
  have hs : TaskStatus.ofText TaskStatus.queued.value = some .queued := by decide
  rw [TaskInsert.exists_toRow_iff]
  simp only [TaskInsert.columns, TaskKwargs.taskInsert, hs, Option.isSome_some, true_and, and_true]
  constructor
  · intro h
    simp at h
    obtain ⟨hid, ht, hty, hc, hcr⟩ := h
    exact ⟨hid, ht, hty, hc, hcr⟩
  · rintro ⟨hid, ht, hty, hc, hcr⟩
    simp [hid, ht, hty, hc, hcr]

theorem orElse_eq_ok_iff {bad : Option PyErr} : (∃ db', orElse bad db = .ok db') ↔ bad = none := by
  unfold orElse
  cases bad <;> simp

theorem tooLong_eq_none_iff {columns : List (String × Nat × String)} :
    tooLong columns = none ↔ ∀ column ∈ columns, column.2.2.length ≤ column.2.1 := by
  simp [tooLong]

theorem commit_taskInsert_iff :
    (∃ db', db.commit now [.insertTask (kw.taskInsert taskId tenantId priority)] = .ok db') ↔
      kw.Fits taskId tenantId ∧ db.tasks.find taskId = none := by
  rw [← toRow_taskInsert_iff now priority]
  simp only [commit, write]
  cases hr : (kw.taskInsert taskId tenantId priority).toRow now with
  | error e => simp
  | ok row =>
    have hid : row.taskId = taskId := (TaskInsert.toRow_eq_ok hr).1
    have hi := Table.insert_eq_none_iff db.tasks row
    rw [hid] at hi
    cases hf : db.tasks.find taskId with
    | none =>
      cases ht : db.tasks.insert row with
      | none => simp [ht, hf] at hi
      | some tasks => simp [ht]
    | some old =>
      have hn : db.tasks.insert row = none := hi.mpr ⟨old, hf⟩
      simp [hn]

end Mysql

/-- What a creation needs in order to return. -/
structure Acceptable (cr : TaskCreator) (kw : TaskKwargs) (taskId tenantId : String) (w : World) : Prop where
  priority : (TaskPriority.ofValue kw.priorityText).isSome
  fits : kw.Fits taskId tenantId
  unused : w.db.tasks.find taskId = none
  admitted : cr.queueManager.Admits kw.capabilityName w.redis
  dagId : ∀ dagId, given kw.dagId = some dagId → dagId.length ≤ 128

namespace TaskCreator
variable {cr : TaskCreator} {u : CreateInputs} {kw : TaskKwargs} {taskId tenantId : String} {w w' : World}

/-- The release of the entry in milliseconds when the call is made at `now`, or 0. -/
def afterMs (kw : TaskKwargs) (now : ℚ) : ℚ :=
  match kw.delaySeconds with
  | some delay => if 0 < delay then toMs now + delay * 1000 else 0
  | none => 0

theorem runWith_executeAfterMs (kw : TaskKwargs) (w : World) :
    (executeAfterMs kw).runWith Command.apply .ok w = (.ok (afterMs kw w.redis.clock), w) := by
  unfold executeAfterMs afterMs
  cases kw.delaySeconds with
  | none => rfl
  | some delay =>
    by_cases hd : 0 < delay
    · simp only [hd, if_true]
      rfl
    · simp only [hd, if_false]
      rfl

theorem runWith_mysqlWrite_eq_ok :
    (mysqlWrite kw taskId tenantId).runWith Command.apply .ok w = (.ok (), w') ↔
      ∃ priority db', TaskPriority.ofValue kw.priorityText = some priority ∧
        w.db.commit w.redis.clock [.insertTask (kw.taskInsert taskId tenantId priority)] = .ok db' ∧
        w' = { w with db := db' } := by
  unfold mysqlWrite
  rw [runWith_session]
  cases TaskPriority.ofValue kw.priorityText with
  | none => simp
  | some priority => simp [runWith_commit_eq_ok]

theorem runWith_store_eq_ok (hdb : cr.hasDb = true) (hpe : kw.persistToDb.getD true = true) {doc : TaskDoc} :
    (cr.store u kw taskId tenantId doc).runWith Command.apply .ok w = (.ok (), w') ↔
      ∃ priority db', TaskPriority.ofValue kw.priorityText = some priority ∧
        w.db.commit w.redis.clock [.insertTask (kw.taskInsert taskId tenantId priority)] = .ok db' ∧
        w' = { w with db := db', redis := w.redis.set (taskKey taskId) (.task doc) (some 86400) } := by
  have hs (tx : TxRecord) (w : World) :
      (cr.coordinator.syncRedis tx (redisWrite taskId doc)).runWith Command.apply .ok w =
        (.ok { tx with redisWritten := true, status := .committed },
          w.exec (.keys [(taskKey taskId, .set (.task doc) (some 86400))])) := by
    unfold AtomicWriteCoordinator.syncRedis redisWrite
    rw [runWith_exceptException, bind_eq, runWith_bind_ok (runWith_perform _ _)]
    rfl
  unfold store AtomicWriteCoordinator.writeAtomic Prog.void
  rw [if_pos ⟨hdb, hpe⟩]
  constructor
  · intro h
    obtain ⟨tx, w₁, hw, he⟩ := runWith_bind_eq_ok.mp h
    obtain ⟨t, w₂, ht, hw⟩ := runWith_bind_eq_ok.mp hw
    obtain ⟨_, w₃, hm, hr⟩ := runWith_bind_eq_ok.mp hw
    cases ht
    obtain ⟨priority, db', hp, hc, rfl⟩ := runWith_mysqlWrite_eq_ok.mp hm
    rw [hs] at hr
    cases hr
    cases he
    exact ⟨priority, db', hp, hc, rfl⟩
  · rintro ⟨priority, db', hp, hc, rfl⟩
    have hm := runWith_mysqlWrite_eq_ok.mpr ⟨priority, db', hp, hc, rfl⟩
    simp only [bind_eq, runWith_bind, runWith_time, hm, hs]
    rfl

theorem record_returns_iff {write : DbWrite} :
    (∃ w', (session (commit [write])).runWith Command.apply .ok w = (.ok (), w')) ↔
      ∃ db', w.db.write w.redis.clock write = .ok db' := by
  simp only [runWith_session, runWith_commit_eq_ok, Mysql.commit]
  cases w.db.write w.redis.clock write <;> simp

theorem runKey_length_le {label : String} (hl : label.length ≤ 8) (text : String) (u : Uuid) :
    (label ++ slice text 8 ++ "-" ++ u.hex8).length ≤ 128 := by
  have ht := slice_length_le text 8
  have hh : u.hex8.length ≤ 8 := slice_length_le u.text 8
  have hd : "-".length = 1 := by decide
  simp only [String.length_append]
  omega

theorem createTaskRun_returns (u : Uuid) (attempt : Int) (hid : taskId.length ≤ 64) (w : World) :
    ∃ runKey w', (RunTrackingService.createTaskRun u taskId attempt "created").runWith
      Command.apply .ok w = (.ok runKey, w') := by
  have hk : ("taskrun-" ++ slice taskId 8 ++ "-" ++ u.hex8).length ≤ 128 :=
    runKey_length_le (by decide) taskId u
  have hw : ∃ db', w.db.write w.redis.clock (.insertTaskRun
      ⟨taskId, "taskrun-" ++ slice taskId 8 ++ "-" ++ u.hex8, attempt, "created"⟩) = .ok db' := by
    refine orElse_eq_ok_iff.mpr (tooLong_eq_none_iff.mpr ?_)
    simp only [forall_mem_cons, not_mem_nil, false_implies, implies_true, and_true]
    exact ⟨by omega, hk, by decide⟩
  obtain ⟨w', hr⟩ := record_returns_iff.mpr hw
  exact ⟨_, w', runWith_bind_ok hr _⟩

theorem createDagRun_returns_iff (u : Uuid) {dagId : String} (ht : tenantId.length ≤ 64) (w : World) :
    (∃ runKey w', (RunTrackingService.createDagRun u dagId tenantId "created").runWith
      Command.apply .ok w = (.ok runKey, w')) ↔ dagId.length ≤ 128 := by
  have hk : ("dagrun-" ++ slice dagId 8 ++ "-" ++ u.hex8).length ≤ 128 :=
    runKey_length_le (by decide) dagId u
  have hw : (∃ db', w.db.write w.redis.clock (.insertDagRun
      ⟨dagId, "dagrun-" ++ slice dagId 8 ++ "-" ++ u.hex8, tenantId, "created"⟩) = .ok db') ↔
        dagId.length ≤ 128 := by
    refine orElse_eq_ok_iff.trans (tooLong_eq_none_iff.trans ?_)
    simp only [forall_mem_cons, not_mem_nil, false_implies, implies_true, and_true]
    exact ⟨fun h => h.1, fun h => ⟨h, hk, ht, by decide⟩⟩
  rw [← hw, ← record_returns_iff]
  constructor
  · rintro ⟨runKey, w', h⟩
    obtain ⟨_, w₁, hr, _⟩ := runWith_bind_eq_ok.mp h
    exact ⟨w₁, hr⟩
  · rintro ⟨w', hr⟩
    exact ⟨_, w', runWith_bind_ok hr _⟩

theorem emit_returns (runKey : Option String) (payload : List (String × String))
    (hid : taskId.length ≤ 64) (w : World) :
    ∃ w', (TaskTimelineService.emit taskId runKey "task_created" payload).runWith
      Command.apply .ok w = (.ok (), w') := by
  refine record_returns_iff.mpr (orElse_eq_ok_iff.mpr (tooLong_eq_none_iff.mpr ?_))
  simp only [forall_mem_cons, not_mem_nil, false_implies, implies_true, and_true]
  exact ⟨hid, by decide⟩

theorem recordRun_returns_iff (u : CreateInputs) (hid : taskId.length ≤ 64) (ht : tenantId.length ≤ 64)
    (w : World) :
    (∃ w', (recordRun u kw taskId tenantId).runWith Command.apply .ok w = (.ok (), w')) ↔
      ∀ dagId, given kw.dagId = some dagId → dagId.length ≤ 128 := by
  obtain ⟨runKey, w₁, hr⟩ := createTaskRun_returns u.runUuid (kw.attempt.getD 0) hid w
  unfold recordRun
  rw [bind_eq]
  simp only [runWith_bind_ok hr]
  cases given kw.dagId with
  | none =>
    simpa using emit_returns (some runKey) _ hid w₁
  | some dagId =>
    simp only [Option.some.injEq, forall_eq']
    rw [← createDagRun_returns_iff u.dagRunUuid ht w₁]
    constructor
    · rintro ⟨w', h⟩
      obtain ⟨_, w₂, hv, _⟩ := runWith_bind_eq_ok.mp h
      obtain ⟨key, w₃, hd, _⟩ := runWith_bind_eq_ok.mp hv
      exact ⟨key, w₃, hd⟩
    · rintro ⟨key, w₂, hd⟩
      obtain ⟨w₃, he⟩ := emit_returns (some runKey) [("tenant_id", tenantId), ("capability", kw.capabilityName)] hid w₂
      exact ⟨w₃, (runWith_bind_ok (runWith_bind_ok hd _) _).trans he⟩

theorem runWith_createNew (cr : TaskCreator) (u : CreateInputs) (kw : TaskKwargs)
    (taskId tenantId : String) (w : World) :
    (cr.createNew u tenantId taskId kw).runWith Command.apply .ok w =
      ((cr.store u kw taskId tenantId (kw.taskDoc taskId tenantId w.redis.clock)).bind fun _ =>
        cr.enqueueStored u kw taskId tenantId (afterMs kw w.redis.clock)).runWith Command.apply .ok w :=
  runWith_bind_ok (runWith_executeAfterMs kw w) _

section
variable (hdb : cr.hasDb = true)
include hdb

theorem enqueueStored_returns_iff (u : CreateInputs) (after : ℚ) (hid : taskId.length ≤ 64)
    (ht : tenantId.length ≤ 64) (w : World) :
    (∃ result w', (cr.enqueueStored u kw taskId tenantId after).runWith Command.apply .ok w =
      (.ok result, w')) ↔
      cr.queueManager.Admits kw.capabilityName w.redis ∧
        ∀ dagId, given kw.dagId = some dagId → dagId.length ≤ 128 := by
  simp only [enqueueStored, hdb, if_true]
  constructor
  · rintro ⟨result, w', h⟩
    obtain ⟨enqueued, w₁, he, hre⟩ := runWith_bind_eq_ok.mp h
    obtain ⟨_, w₂, hr, _⟩ := runWith_bind_eq_ok.mp hre
    exact ⟨(QueueManager.enqueue_returns_iff ..).mp ⟨enqueued, w₁, he⟩,
      (recordRun_returns_iff u hid ht w₁).mp ⟨w₂, hr⟩⟩
  · rintro ⟨ha, hd⟩
    obtain ⟨enqueued, w₁, he⟩ := (cr.queueManager.enqueue_returns_iff kw.capabilityName taskId
      kw.priorityNumber after w).mpr ha
    obtain ⟨w₂, hr⟩ := (recordRun_returns_iff u hid ht w₁).mpr hd
    exact ⟨_, w₂, (runWith_bind_ok he _).trans (runWith_bind_ok hr _)⟩

/-- Undisturbed, a creation returns exactly when it is acceptable. -/
theorem createNew_returns_iff (hpe : kw.persistToDb.getD true = true) (u : CreateInputs) (w : World) :
    (∃ result w', (cr.createNew u tenantId taskId kw).runWith Command.apply .ok w = (.ok result, w')) ↔
      Acceptable cr kw taskId tenantId w := by
  have hr := cr.runWith_createNew u kw taskId tenantId w
  rw [hr]
  constructor
  · rintro ⟨result, w', h⟩
    obtain ⟨_, w₁, hs, he⟩ := runWith_bind_eq_ok.mp h
    obtain ⟨priority, db', hp, hc, rfl⟩ := (runWith_store_eq_ok hdb hpe).mp hs
    obtain ⟨hf, hu⟩ := (commit_taskInsert_iff _ _).mp ⟨db', hc⟩
    obtain ⟨ha, hd⟩ :=
      (enqueueStored_returns_iff hdb u _ hf.taskId hf.tenantId _).mp ⟨result, w', he⟩
    exact ⟨by rw [hp]; rfl, hf, hu, (admits_set _ _ (taskKey_notMem_breakerKeys _ _)).mp ha, hd⟩
  · intro h
    obtain ⟨priority, hp⟩ := Option.isSome_iff_exists.mp h.priority
    obtain ⟨db', hc⟩ := (commit_taskInsert_iff w.redis.clock priority).mpr ⟨h.fits, h.unused⟩
    rw [runWith_bind_ok ((runWith_store_eq_ok hdb hpe).mpr ⟨priority, db', hp, hc, rfl⟩)]
    exact (enqueueStored_returns_iff hdb u _ h.fits.taskId h.fits.tenantId _).mpr
      ⟨(admits_set _ _ (taskKey_notMem_breakerKeys _ _)).mpr h.admitted, h.dagId⟩

end

end TaskCreator

def Command.keepsTasks (cmd : Command) : Prop := ∀ w : World, (cmd.apply .ok w).db.tasks = w.db.tasks

theorem keepsTasks_of_ne_commit {cmd : Command} (h : ∀ writes, cmd ≠ .commit writes) : cmd.keepsTasks := by
  intro w
  rcases db_exec w cmd with hdb | ⟨writes, _, rfl, _, _⟩
  · exact congrArg Mysql.tasks hdb
  · exact absurd rfl (h writes)

theorem keepsTasks_track {write : DbWrite} (h : write.tracks) : (Command.commit [write]).keepsTasks := by
  intro w
  rcases db_exec w (.commit [write]) with hdb | ⟨writes, db', hw, hc, hdb⟩
  · exact congrArg Mysql.tasks hdb
  · cases hw
    exact (congrArg Mysql.tasks hdb).trans (tasks_commit (forall_mem_singleton.mpr h) hc)

namespace TaskCreator
variable {cr : TaskCreator} {u : CreateInputs} {kw : TaskKwargs} {taskId tenantId : String} {w w' : World}

theorem keepsTasks_enqueue : EnqueueAllowed Command.keepsTasks kw taskId where
  read := keepsTasks_of_ne_commit fun _ h => nomatch h
  breaker _ := keepsTasks_of_ne_commit fun _ h => nomatch h
  register _ := keepsTasks_of_ne_commit fun _ h => nomatch h
  enqueue _ _ _ := keepsTasks_of_ne_commit fun _ h => nomatch h
  track _ h := keepsTasks_track h

theorem tasks_enqueueStored (cr : TaskCreator) (u : CreateInputs) (kw : TaskKwargs) (taskId tenantId : String)
    (after : ℚ) (w : World) :
    ((cr.enqueueStored u kw taskId tenantId after).runWith Command.apply .ok w).2.db.tasks = w.db.tasks :=
  (Issues.runWith (I := fun s => s.db.tasks = w.db.tasks) (fun _ s hc hs => (hc s).trans hs)
    (issues_enqueueStored keepsTasks_enqueue cr u after) rfl).1

theorem rows_createNew {result : CreateResult} (hdb : cr.hasDb = true) (hp : kw.persistToDb.getD true = true)
    (h : (cr.createNew u tenantId taskId kw).runWith Command.apply .ok w = (.ok result, w')) :
    ∃ row, w'.db.tasks.rows = w.db.tasks.rows ++ [row] ∧ row.idempotencyKey = none := by
  have hru := cr.runWith_createNew u kw taskId tenantId w
  rw [hru] at h
  obtain ⟨_, w₁, hs, he⟩ := runWith_bind_eq_ok.mp h
  obtain ⟨priority, db', _, hc, rfl⟩ := (runWith_store_eq_ok hdb hp).mp hs
  have ht := congrArg (fun r => r.2.db.tasks) he
  dsimp only at ht
  rw [tasks_enqueueStored] at ht
  simp only [Mysql.commit] at hc
  split at hc
  · cases hc
  · rename_i db₁ hw
    cases hc
    obtain ⟨row, tasks, hr, hi, rfl⟩ := write_insertTask hw
    refine ⟨row, ?_, (TaskInsert.toRow_eq_ok hr).2.2.2.2⟩
    rw [← ht]
    exact (Table.insert_eq_some hi).2

theorem tasks_createNew_of_not_persist {result : CreateResult} (hp : kw.persistToDb.getD true = false)
    (h : (cr.createNew u tenantId taskId kw).runWith Command.apply .ok w = (.ok result, w')) :
    w'.db.tasks = w.db.tasks := by
  have hr := cr.runWith_createNew u kw taskId tenantId w
  have hs (doc : TaskDoc) : (cr.store u kw taskId tenantId doc).runWith Command.apply .ok w =
      (.ok (), w.exec (.keys [(taskKey taskId, .set (.task doc) (some 86400))])) := by
    unfold store redisWrite
    rw [if_neg (by simp [hp]), runWith_exceptException, runWith_perform]
  have ht := congrArg (fun r => r.2.db.tasks) h
  dsimp only at ht
  rw [hr, runWith_bind_ok (hs _), tasks_enqueueStored] at ht
  exact ht.symm

end TaskCreator

def Command.isEnqueue : Command → Bool
  | .queue (.enqueue ..) => true
  | _ => false

def Command.Silent (cmd : Command) : Prop := cmd.isEnqueue = false

def enqueues {α : Type} (p : Py α) (w : World) : Nat :=
  (p.transitions Command.apply .ok w).countP fun t => t.cmd.isEnqueue

variable {β : Type} {p : Py α}

theorem enqueues_bind {f : α → Py β} (hp : p.runWith Command.apply .ok w = (.ok a, w')) :
    enqueues (p.bind f) w = enqueues p w + enqueues (f a) w' := by
  simp only [enqueues, transitions_bind, hp, countP_append]

theorem enqueues_logErrors (hp : p.runWith Command.apply .ok w = (.ok a, w')) :
    enqueues (logErrors p) w = enqueues p w := by
  unfold enqueues logErrors exceptException
  rw [transitions_handle hp]

theorem enqueues_await {cmd : Command} (reply : World → Except PyErr α) (hc : cmd.isEnqueue = true) :
    enqueues (await cmd reply) w = 1 := by
  unfold enqueues await
  rw [Prog.transitions, countP_cons, hc]
  dsimp only
  split <;> rfl

theorem enqueues_eq_zero {Q : α → Prop} (hp : Issues (fun _ => True) Command.Silent Q p) : enqueues p w = 0 :=
  countP_eq_zero.mpr fun _ ht => ne_true_of_eq_false (hp.of_mem_transitions ht)

theorem silent_ambient : Ambient Command.Silent := ⟨rfl, fun _ => rfl, fun _ => rfl⟩

theorem QueueManager.enqueues_enqueue {q : QueueManager} {capability taskId : String} {priority : Int}
    {after : ℚ} {w w' : World} {result : EnqueueResult}
    (h : (q.enqueue capability taskId priority after).runWith Command.apply .ok w = (.ok result, w')) :
    enqueues (q.enqueue capability taskId priority after) w = 1 := by
  unfold enqueue at h ⊢
  obtain ⟨refused, w₁, hre, hr⟩ := runWith_bind_eq_ok.mp h
  rw [bind_eq, enqueues_bind hre, enqueues_eq_zero (issues_refused silent_ambient q capability)]
  cases refused with
  | true => cases hr
  | false =>
    obtain ⟨t, w₂, ht, hr⟩ := runWith_bind_eq_ok.mp hr
    obtain ⟨⟨pos, count⟩, w₃, hs, hr⟩ := runWith_bind_eq_ok.mp hr
    rw [if_neg (by decide), bind_eq, enqueues_bind ht, enqueues_eq_zero (issues_time silent_ambient),
      bind_eq, enqueues_bind hs, enqueues_await _ rfl, Nat.zero_add, Nat.zero_add]
    refine congrArg (1 + ·) (enqueues_eq_zero (Q := fun _ => True) ?_)
    dsimp only
    split
    · trivial
    · exact (issues_perform (silent_ambient.register capability)).bind fun _ _ => trivial

namespace TaskCreator
variable {cr : TaskCreator} {u : CreateInputs} {kw : TaskKwargs} {taskId tenantId : String} {w w' : World}

theorem silent_store : StoreAllowed Command.Silent kw taskId tenantId where
  toAmbient := silent_ambient
  insert _ := rfl
  cache _ := rfl
  transaction _ _ _ := rfl

theorem enqueues_createNew {result : CreateResult}
    (h : (cr.createNew u tenantId taskId kw).runWith Command.apply .ok w = (.ok result, w')) :
    enqueues (cr.createNew u tenantId taskId kw) w = 1 := by
  unfold createNew at h ⊢
  obtain ⟨after, w₁, ha, h⟩ := runWith_bind_eq_ok.mp h
  obtain ⟨t, w₂, ht, h⟩ := runWith_bind_eq_ok.mp h
  obtain ⟨_, w₃, hs, h⟩ := runWith_bind_eq_ok.mp h
  obtain ⟨enqueued, w₄, he, h⟩ := runWith_bind_eq_ok.mp h
  rw [bind_eq, enqueues_bind ha, bind_eq, enqueues_bind ht, bind_eq, enqueues_bind hs]
  rw [enqueues_eq_zero (issues_executeAfterMs rfl), enqueues_eq_zero (QueueManager.issues_time silent_ambient),
    enqueues_eq_zero (issues_store silent_store cr u _)]
  unfold enqueueStored
  rw [bind_eq, enqueues_bind he, QueueManager.enqueues_enqueue he, Nat.zero_add, Nat.zero_add, Nat.zero_add]
  refine congrArg (1 + ·) (enqueues_eq_zero (Q := fun _ => True) ?_)
  dsimp only
  split
  · exact (issues_recordRun silent_ambient.read (fun _ _ => rfl) u).bind fun _ _ => trivial
  · trivial

end TaskCreator

end AsyncScheduler
