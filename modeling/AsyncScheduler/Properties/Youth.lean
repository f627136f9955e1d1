import AsyncScheduler.Properties.Waiting
import AsyncScheduler.Services.Compensation

/-!
# Young tasks

Phase 2 takes the age of a task from its document.
-/

namespace AsyncScheduler

/-- Neither requeued nor failed: a requeue counts an attempt of the row, a failure marks the
document. -/
def Spared (row : TaskRecord) (w w' : World) : Prop :=
  (∃ row', w'.db.tasks.find row.taskId = some row' ∧ row'.attempt = row.attempt) ∧
    ∀ d, w'.redis.get (taskKey row.taskId) = some (.task d) → row.seen w.redis = some d

def SafeWhileYoung (rc : TaskReconciler) (row : TaskRecord) (d : TaskDoc) : Prop :=
  ∀ w : World, w.Keyed → w.db.tasks.find row.taskId = some row → row.seen w.redis = some d →
    w.redis.clock - row.createdAt < rc.stuckMaxAge →
      ∀ scanned schedule, Spared row w (rc.ticked scanned schedule w)

def TaskReconciler.Considers (rc : TaskReconciler) (d : TaskDoc) : Prop :=
  TaskReconciler.isStuckCandidate d = true ∧ d.idText ≠ "" ∧ 0 < rc.stuckMaxPerTick

def Dated (row : TaskRecord) (d : TaskDoc) : Prop :=
  ∃ created, d.createdAtTs = some created ∧ created ≠ 0 ∧ row.createdAt ≤ created

open TaskReconciler

section
variable {rc : TaskReconciler} {row : TaskRecord} {d : TaskDoc} {w : World}

theorem tooYoung_of_dated (hd : Dated row d) (hy : w.redis.clock - row.createdAt < rc.stuckMaxAge) :
    rc.tooYoung w.redis.clock d = true := by
  obtain ⟨created, hc, hne, hle⟩ := hd
  unfold tooYoung
  rw [hc]
  refine decide_eq_true ⟨hne, ?_⟩
  have : w.redis.clock - created ≤ w.redis.clock - row.createdAt := sub_le_sub_left hle _
  exact this.trans_lt hy

theorem seen_of_cached (h : w.redis.get (taskKey row.taskId) = some (.task d)) : row.seen w.redis = some d := by
  unfold TaskRecord.seen
  rw [h]
  rfl

theorem seen_of_prepared (hdb : rc.hasDb = true) (hr : w.db.tasks.find row.taskId = some row)
    (h : (rc.prepared w).redis.get (taskKey row.taskId) = some (.task d)) : row.seen w.redis = some d := by
  by_cases hid : row.taskId = ""
  · rw [hid, rc.get_prepared_empty, ← hid] at h
    exact seen_of_cached h
  · rw [← seen_prepared hdb hr hid, h]
    rfl

/-- A tick spares what it cannot take. -/
theorem spared_of_not_canTake (hdb : rc.hasDb = true) (hk : w.Keyed)
    (hr : w.db.tasks.find row.taskId = some row) (h : ¬ rc.CanTake row w) (scanned : List String)
    (schedule : List Nat) : Spared row w (rc.ticked scanned schedule w) := by
  by_cases hl : rc.Leads w.redis
  · have hno := not_taken hdb hr hk hl h scanned
    refine ⟨⟨row, ?_, rfl⟩, fun d hget => ?_⟩
    · rw [find_ticked scanned schedule _ hl, if_neg, hr]
      rintro ⟨_, t, ht, _, hn⟩
      exact hno t ht hn
    · rw [get_ticked scanned schedule _ hl, if_neg] at hget
      · exact seen_of_prepared hdb hr hget
      · rintro ⟨_, hf⟩
        obtain ⟨t, ht, _, hn⟩ := mem_failIds_iff.mp hf
        exact hno t ht hn
  · refine ⟨⟨row, ?_, rfl⟩, fun d hget => ?_⟩
    · rw [db_ticked_other scanned schedule hl, hr]
    · rw [get_ticked_other scanned schedule _ hl] at hget
      exact seen_of_cached hget

theorem not_spared_of_canTake (hdb : rc.hasDb = true) (hk : w.Keyed)
    (hro : w.db.tasks.find row.taskId = some row) (h : rc.CanTake row w) :
    ¬ Spared row w (rc.ticked [row.taskId] [] w) := by
  obtain ⟨hl, d, hs, he⟩ := h
  rintro ⟨⟨row', hr', ha⟩, hd⟩
  rcases ticked_alone hdb hk hro hl hs he [] with hr | hf
  · obtain rfl := Option.some.inj (hr.symm.trans hr')
    have ho : row.attempt + 1 = row.attempt := ha
    omega
  · have hsa : markFailed d = d := Option.some.inj ((hd _ hf).symm.trans hs)
    have hst : d.status = some TaskStatus.failed.value := congrArg TaskDoc.status hsa.symm
    exact (status_of_candidate he.candidate).2 hst

def World.single (row : TaskRecord) (d : TaskDoc) (t : ℚ) : World :=
  (World.storing row).onRedis fun r => ({ r with clock := t }).set (taskKey row.taskId) (.task d) none

theorem strings_single (row : TaskRecord) (d : TaskDoc) (t : ℚ) (k : String) :
    (World.single row d t).redis.strings k =
      if k = taskKey row.taskId then some (.task d, none) else none := by
  unfold World.single World.onRedis
  rw [Redis.strings_set]
  rfl

theorem keyed_single (hn : d.idText = row.taskId) (t : ℚ) : (World.single row d t).Keyed := by
  intro x d' hget
  unfold Redis.get at hget
  rw [strings_single] at hget
  split at hget
  · rename_i hk
    cases hget
    rw [hn, taskKey_eq_taskKey.mp hk]
  · cases hget

theorem existsKey_single {k : String} (hk : ∀ x, k ≠ taskKey x) (t : ℚ) :
    (World.single row d t).redis.existsKey k = false := by
  unfold Redis.existsKey
  rw [strings_single, if_neg (hk _)]
  rfl

theorem seen_single (t : ℚ) : row.seen (World.single row d t).redis = some d := by
  apply seen_of_cached
  unfold Redis.get
  rw [strings_single, if_pos rfl]
  rfl

theorem canTake_single (hco : rc.Considers d) {t : ℚ} (hold : rc.tooYoung t d = false) :
    rc.CanTake row (World.single row d t) := by
  obtain ⟨hc, hn, hca⟩ := hco
  refine ⟨.inl (existsKey_single (fun x => (taskKey_ne_leaderKey x).symm) t), d, seen_single t, ?_⟩
  exact ⟨hc, hn, existsKey_single (foreign_lockKey _).task t, hold,
    existsKey_single (fun x => (taskKey_ne_dedupKey x _).symm) t, hca⟩

theorem exists_old (rc : TaskReconciler) (h : ¬ Dated row d) :
    ∃ t, t - row.createdAt < rc.stuckMaxAge ∧ rc.tooYoung t d = false := by
  by_cases hz : d.createdAtTs.getD 0 = 0
  · refine ⟨row.createdAt + rc.stuckMaxAge - 1, by linarith, ?_⟩
    unfold tooYoung
    simp [hz]
  · cases hc : d.createdAtTs with
    | none => exact absurd (by rw [hc]; rfl) hz
    | some created =>
      have hne : created ≠ 0 := by simpa [hc] using hz
      have hlt : created < row.createdAt := not_le.mp fun hle => h ⟨created, hc, hne, hle⟩
      refine ⟨created + rc.stuckMaxAge, by linarith, ?_⟩
      unfold tooYoung
      simp [hc]

theorem safeWhileYoung_iff (hdb : rc.hasDb = true) (hn : d.idText = row.taskId) :
    SafeWhileYoung rc row d ↔ ¬ rc.Considers d ∨ Dated row d := by
  constructor
  · intro hs
    by_contra hno
    obtain ⟨hc, hu⟩ := not_or.mp hno
    obtain ⟨t, hy, hold⟩ := exists_old rc hu
    have hk := keyed_single hn t
    exact not_spared_of_canTake hdb hk (find_storing row) (canTake_single (not_not.mp hc) hold)
      (hs _ hk (find_storing row) (seen_single t) hy _ _)
  · intro h w hk hr hse hy scanned schedule
    refine spared_of_not_canTake hdb hk hr ?_ scanned schedule
    rintro ⟨_, d', hs', he⟩
    obtain rfl : d' = d := Option.some.inj (hs'.symm.trans hse)
    rcases h with hi | hd
    · exact hi ⟨he.candidate, he.named, he.capacity⟩
    · have hold := he.old
      rw [tooYoung_of_dated hd hy] at hold
      cases hold

end

/-- Who wrote the cached document of a row. -/
inductive RecordWriter where
  -- `create_task`, with its arguments and its reading of the clock
  | creator (kw : TaskKwargs) (tenantId : String) (now : ℚ)
  | rebuild
  | compensation

namespace RecordWriter

def record (row : TaskRecord) : RecordWriter → TaskDoc
  | creator kw tenantId now => kw.taskDoc row.taskId tenantId now
  | rebuild => row.payload
  | compensation => CompensationService.taskData row

def write (row : TaskRecord) : RecordWriter → Py Unit
  | creator kw tenantId now => TaskCreator.redisWrite row.taskId (kw.taskDoc row.taskId tenantId now)
  | rebuild => rebuildCache row
  | compensation => CompensationService.repairMissingTask row

theorem get_write (row : TaskRecord) (writer : RecordWriter) {w : World}
    (hm : Blob.truthy (w.redis.get (taskKey row.taskId)) = false) :
    ((writer.write row).runWith Command.apply .ok w).2.redis.get (taskKey row.taskId) =
      some (.task (writer.record row)) := by
  have hset (d : TaskDoc) : (w.redis.set (taskKey row.taskId) (.task d) (some 86400)).get (taskKey row.taskId) =
      some (.task d) := by
    unfold Redis.get
    rw [Redis.strings_set, if_pos rfl]
    rfl
  cases writer with
  | creator kw tenantId now =>
    rw [write, TaskCreator.redisWrite, runWith_perform]
    exact hset _
  | rebuild =>
    have hc : cached w.redis row = w.redis.set (taskKey row.taskId) (.task row.payload) (some 86400) :=
      if_neg (by simp [hm])
    rw [write, runWith_rebuildCache]
    exact (congrArg (Redis.get · (taskKey row.taskId)) hc).trans (hset _)
  | compensation =>
    rw [write, CompensationService.runWith_repairMissingTask]
    exact hset _

def Dates (row : TaskRecord) : RecordWriter → Prop
  | creator kw _ now => kw.createdAtTs.getD now ≠ 0 ∧ row.createdAt ≤ kw.createdAtTs.getD now
  | rebuild => False
  | compensation => row.createdAt ≠ 0

theorem dated_record_iff (row : TaskRecord) (writer : RecordWriter) :
    Dated row (writer.record row) ↔ writer.Dates row := by
  cases writer with
  | creator kw tenantId now =>
    constructor
    · rintro ⟨created, hc, hne, hle⟩
      cases hc
      exact ⟨hne, hle⟩
    · rintro ⟨hne, hle⟩
      exact ⟨_, rfl, hne, hle⟩
  | rebuild =>
    constructor
    · rintro ⟨created, hc, _⟩
      cases hc
    · exact False.elim
  | compensation =>
    constructor
    · rintro ⟨created, hc, hne, _⟩
      cases hc
      exact hne
    · intro hne
      exact ⟨_, rfl, hne, le_rfl⟩

end RecordWriter

/-- Each writer leaves its document for a row that has none. Whoever wrote it: no tick takes the
task on while its row is young, exactly when phase 2 would pass over the document at any age or
the writer dated it, and not before the row. The rebuild never does. -/
theorem young_left_alone_iff (rc : TaskReconciler) (row : TaskRecord) (writer : RecordWriter)
    (hdb : rc.hasDb = true) (hname : (writer.record row).idText = row.taskId) :
    (∀ w : World, Blob.truthy (w.redis.get (taskKey row.taskId)) = false →
      ((writer.write row).runWith Command.apply .ok w).2.redis.get (taskKey row.taskId) =
        some (.task (writer.record row))) ∧
    (SafeWhileYoung rc row (writer.record row) ↔ ¬ rc.Considers (writer.record row) ∨ writer.Dates row) := by
  constructor
  · exact fun w hm => writer.get_write row hm
  · rw [safeWhileYoung_iff hdb hname, writer.dated_record_iff row]

def TaskRecord.young : TaskRecord := { bareRow "t" .queued with taskType := "gpu", createdAt := 990 }

/-- Ten seconds after its creation the rebuild caches the row, and the same tick requeues it. -/
theorem young_requeued :
    let w := (World.storing .young).onRedis fun r => { r with clock := 1000 }
    w.redis.clock - TaskRecord.young.createdAt < TaskReconciler.plain.stuckMaxAge ∧
    ((TaskReconciler.plain.ticked ["t"] [] w).db.tasks.find "t").map TaskRecord.attempt = some 1 ∧
    (TaskReconciler.plain.ticked ["t"] [] w).redis.zscore (QueueKeys.pending "gpu") "t" = some 30000001010000 := by
  decide +kernel

theorem young_left_alone_iff_young :
    SafeWhileYoung .plain .young (CompensationService.taskData .young) ∧
      ¬ SafeWhileYoung .plain .young TaskRecord.young.payload := by
  constructor
  · have hd : RecordWriter.compensation.Dates .young := show (990 : ℚ) ≠ 0 by decide
    exact (young_left_alone_iff .plain .young .compensation rfl rfl).2.mpr (.inr hd)
  · intro hs
    rcases (young_left_alone_iff .plain .young .rebuild rfl rfl).2.mp hs with hi | hd
    · exact hi ⟨by decide +kernel, by decide +kernel, by decide +kernel⟩
    · exact hd

end AsyncScheduler
