import AsyncScheduler.Platform.TaskCreator
import AsyncScheduler.Platform.TickRun

/-!
# Waiting tasks

Phase 2 decides from the cached status, the execution lock and the age of a task.
-/

namespace AsyncScheduler

/-- The document that a leader sees of a stored task: the cached one, or the one that the
rebuild makes of the row. -/
def TaskRecord.seen (row : TaskRecord) (r : Store) : Option TaskDoc :=
  if Blob.truthy (r.get (taskKey row.taskId)) then (r.get (taskKey row.taskId)).bind Blob.taskDoc
  else some row.payload

/-- Between two states, the queue entry of a task, its row and its cached status are the same. A
missing document may be filled in from the row. -/
structure LeftAlone (c : String) (row : TaskRecord) (w w' : World) : Prop where
  score : w'.redis.zscore (QueueKeys.pending c) row.taskId = w.redis.zscore (QueueKeys.pending c) row.taskId
  stored : ∃ row', w'.db.tasks.find row.taskId = some row' ∧ row'.attempt = row.attempt ∧ row'.status = row.status
  cached : w'.cachedStatus row.taskId = w.cachedStatus row.taskId ∨
    (w.cachedStatus row.taskId = none ∧ w'.cachedStatus row.taskId = some row.status.value)

namespace TaskReconciler

def CanTake (rc : TaskReconciler) (row : TaskRecord) (w : World) : Prop :=
  rc.Leads w.redis ∧ ∃ d, row.seen w.redis = some d ∧ rc.Eligible w.redis d

section
variable {rc : TaskReconciler} {row : TaskRecord} {w : World}

theorem not_truthy_doc {v : Option Blob} (h : ¬ Blob.truthy v = true) : v.bind Blob.taskDoc = none := by
  cases v with
  | none => rfl
  | some b =>
    cases b with
    | text s => rfl
    | _ => exact absurd rfl h

section
variable (hdb : rc.hasDb = true) (hrow : w.db.tasks.find row.taskId = some row)
include hdb hrow

theorem seen_prepared (hid : row.taskId ≠ "") :
    ((rc.prepared w).redis.get (taskKey row.taskId)).bind Blob.taskDoc = row.seen w.redis := by
  unfold TaskRecord.seen
  split
  · rename_i ht
    rw [rc.get_prepared_of_truthy ht]
  · rename_i hm
    rw [rc.get_prepared_of_missing hdb hid hrow (by simpa using hm)]
    rfl

theorem not_taken (hk : w.Keyed) (hl : rc.Leads w.redis) (h : ¬ rc.CanTake row w) (scanned : List String) :
    ∀ t ∈ rc.tickTaken scanned w, t.idText ≠ row.taskId := by
  intro t ht hn
  obtain ⟨hget, he⟩ := get_of_mem_tickTaken hk ht
  rw [hn] at hget
  have hid : row.taskId ≠ "" := hn ▸ he.named
  have hs : row.seen w.redis = some t := (seen_prepared hdb hrow hid).symm.trans (taskDoc_eq_some.mpr hget)
  exact h ⟨hl, t, hs, he⟩

theorem cachedStatus_prepared : (rc.prepared w).cachedStatus row.taskId = w.cachedStatus row.taskId ∨
      (w.cachedStatus row.taskId = none ∧ (rc.prepared w).cachedStatus row.taskId = some row.status.value) := by
  unfold World.cachedStatus
  by_cases ht : Blob.truthy (w.redis.get (taskKey row.taskId)) = true
  · exact .inl (by rw [rc.get_prepared_of_truthy ht])
  by_cases hid : row.taskId = ""
  · rw [hid, rc.get_prepared_empty]
    exact .inl rfl
  · refine .inr ⟨?_, ?_⟩
    · rw [not_truthy_doc ht]
      rfl
    · rw [rc.get_prepared_of_missing hdb hid hrow (by simpa using ht)]
      rfl

theorem leftAlone_of_not_taken {c : String} (httl : ∀ q, rc.queueManager = some q → 0 < q.ttl)
    (hl : rc.Leads w.redis) (hp : row.taskId ∈ w.pending c) {scanned : List String}
    (h : ∀ t ∈ rc.tickTaken scanned w, t.idText ≠ row.taskId) (schedule : List Nat) :
    LeftAlone c row w (rc.ticked scanned schedule w) where
  score := zscore_ticked scanned schedule _ hl httl hp h
  stored := by
    refine ⟨row, ?_, rfl, rfl⟩
    rw [find_ticked scanned schedule _ hl, if_neg, hrow]
    rintro ⟨_, t, ht, _, hn⟩
    exact h t ht hn
  cached := by
    have hs : (rc.ticked scanned schedule w).cachedStatus row.taskId = (rc.prepared w).cachedStatus row.taskId := by
      unfold World.cachedStatus
      rw [get_ticked scanned schedule _ hl, if_neg]
      rintro ⟨_, hf⟩
      obtain ⟨t, ht, _, hn⟩ := mem_failIds_iff.mp hf
      exact h t ht hn
    rw [hs]
    exact cachedStatus_prepared hdb hrow

theorem leftAlone_ticked {c : String} (httl : ∀ q, rc.queueManager = some q → 0 < q.ttl) (hk : w.Keyed)
    (hp : row.taskId ∈ w.pending c) (h : ¬ rc.CanTake row w) (scanned : List String) (schedule : List Nat) :
    LeftAlone c row w (rc.ticked scanned schedule w) := by
  by_cases hl : rc.Leads w.redis
  · exact leftAlone_of_not_taken hdb hrow httl hl hp (not_taken hdb hrow hk hl h scanned) schedule
  · refine ⟨zscore_ticked_other scanned schedule _ hl c, ⟨row, ?_, rfl, rfl⟩, .inl ?_⟩
    · rw [db_ticked_other scanned schedule hl, hrow]
    · unfold World.cachedStatus
      rw [get_ticked_other scanned schedule _ hl]

end

theorem status_of_candidate {d : TaskDoc} (h : isStuckCandidate d = true) :
    d.status ≠ none ∧ d.status ≠ some TaskStatus.failed.value := by
  constructor
  all_goals
    intro hs
    unfold isStuckCandidate TaskDoc.statusText at h
    rw [hs] at h
    revert h
    decide +kernel

theorem name_of_seen {d : TaskDoc} (hk : w.Keyed) (h : row.seen w.redis = some d) : d.idText = row.taskId := by
  unfold TaskRecord.seen at h
  split at h
  · exact hk _ d (taskDoc_eq_some.mp h)
  · cases h
    rfl

theorem status_of_seen {d : TaskDoc} (h : row.seen w.redis = some d) : w.cachedStatus row.taskId = d.status ∨
      (w.cachedStatus row.taskId = none ∧ d.status = some row.status.value) := by
  unfold World.cachedStatus
  unfold TaskRecord.seen at h
  split at h
  · rw [h]
    exact .inl rfl
  · rename_i hm
    cases h
    rw [not_truthy_doc hm]
    exact .inr ⟨rfl, rfl⟩

/-- A tick over one eligible task retries it or marks it as failed. -/
theorem ticked_alone (hdb : rc.hasDb = true) (hk : w.Keyed) (hrow : w.db.tasks.find row.taskId = some row)
    {d : TaskDoc} (hl : rc.Leads w.redis) (hs : row.seen w.redis = some d) (h : rc.Eligible w.redis d)
    (schedule : List Nat) :
    (rc.ticked [row.taskId] schedule w).db.tasks.find row.taskId = some (row.retried w.redis.clock) ∨
      (rc.ticked [row.taskId] schedule w).redis.get (taskKey row.taskId) = some (.task (markFailed d)) := by
  have hn := name_of_seen hk hs
  have hid : row.taskId ≠ "" := hn ▸ h.named
  have hget : (rc.prepared w).redis.get (taskKey row.taskId) = some (.task d) :=
    taskDoc_eq_some.mp ((seen_prepared hdb hrow hid).trans hs)
  have hta := tickTaken_singleton hget h
  by_cases hr : rc.Requeues d
  · refine .inl ?_
    rw [find_ticked _ schedule _ hl, hta, if_pos ⟨hdb, d, List.mem_singleton_self d, hr, hn⟩, hrow]
    rfl
  · refine .inr ?_
    have ha : rc.TickAdmitted [row.taskId] w := by
      refine tickAdmitted_of_none fun t ht => ?_
      rw [hta] at ht
      rwa [List.mem_singleton.mp ht]
    have hf : row.taskId ∈ rc.failIds (rc.tickTaken [row.taskId] w) := by
      rw [hta]
      simp [failIds, hr, hn]
    rw [get_ticked _ schedule _ hl, if_pos ⟨ha, hf⟩, hget]
    rfl

/-- A tick takes what it can take. -/
theorem not_leftAlone_ticked {c : String} (hdb : rc.hasDb = true) (hk : w.Keyed)
    (hrow : w.db.tasks.find row.taskId = some row) (h : rc.CanTake row w) (schedule : List Nat) :
    ¬ LeftAlone c row w (rc.ticked [row.taskId] schedule w) := by
  obtain ⟨hl, d, hse, he⟩ := h
  intro ha
  rcases ticked_alone hdb hk hrow hl hse he schedule with hr | hf
  · obtain ⟨row', hr', hat, _⟩ := ha.stored
    obtain rfl := Option.some.inj (hr.symm.trans hr')
    have ho : row.attempt + 1 = row.attempt := hat
    omega
  · obtain ⟨hso, hno⟩ := status_of_candidate he.candidate
    have hc := ha.cached
    have hst : (rc.ticked [row.taskId] schedule w).cachedStatus row.taskId = some TaskStatus.failed.value := by
      unfold World.cachedStatus
      rw [hf]
      rfl
    rw [hst] at hc
    rcases status_of_seen hse with hb | ⟨hn, hb⟩
    · rw [hb] at hc
      rcases hc with hs | ⟨hn, _⟩
      · exact hno hs.symm
      · exact hso hn
    · rw [hn] at hc
      rcases hc with hs | ⟨_, hv⟩
      · cases hs
      · exact hno (hb.trans hv.symm)

end

end TaskReconciler

/-- For a task with a row that waits in a queue: whatever a tick scans and in whatever order its
phases proceed, the tick leaves the task alone, exactly when the reconciler does not lead or
phase 2 has a reason to pass over the document it sees. -/
theorem waiting_left_alone_iff (rc : TaskReconciler) (w : World) (row : TaskRecord) (c : String)
    (hdb : rc.hasDb = true) (httl : ∀ q, rc.queueManager = some q → 0 < q.ttl) (hkeyed : w.Keyed)
    (hrow : w.db.tasks.find row.taskId = some row) (hpending : row.taskId ∈ w.pending c) :
    (∀ scanned schedule, LeftAlone c row w (rc.ticked scanned schedule w)) ↔ ¬ rc.CanTake row w := by
  constructor
  · intro h ht
    exact TaskReconciler.not_leftAlone_ticked hdb hkeyed hrow ht [] (h [row.taskId] [])
  · exact TaskReconciler.leftAlone_ticked hdb hrow httl hkeyed hpending

/-- A task of type `gpu` created at second 1000 and never dequeued. -/
def World.waitingGpu (retries : Option Int) : World :=
  ((TaskCreator.plain.createTask .ones "acme" none { taskType := some "gpu", maxRetries := retries }).runWith
    Command.apply .ok World.at1000).2

/-- A tick at second 1400 marks the one without retries as failed, and counts an attempt of the
other one and moves it back in its queue. -/
theorem waiting_taken_for_stuck :
    let x := Uuid.one.text
    let failed := (World.waitingGpu none).tickedAt 1400 [x]
    let requeued := (World.waitingGpu (some 3)).tickedAt 1400 [x]
    (World.waitingGpu none).redis.zscore (QueueKeys.pending "gpu") x = some 30000001000000 ∧
    failed.redis.zscore (QueueKeys.pending "gpu") x = some 30000001000000 ∧
    (World.waitingGpu none).cachedStatus x = some "queued" ∧ failed.cachedStatus x = some "failed" ∧
    ((World.waitingGpu (some 3)).db.tasks.find x).map TaskRecord.attempt = some 0 ∧
    (requeued.db.tasks.find x).map TaskRecord.attempt = some 1 ∧
    requeued.redis.zscore (QueueKeys.pending "gpu") x = some 30000001410000 := by
  decide +kernel

/-- The state with one scheduled task, which waits in the queue `gpu`. -/
def World.scheduledRow : World :=
  (World.storing (bareRow "t" .scheduled)).onRedis (·.zadd (QueueKeys.pending "gpu") 0 "t")

theorem waiting_left_alone_iff_scheduled : TaskReconciler.plain.Leads World.scheduledRow.redis ∧
    ∀ scanned schedule, LeftAlone "gpu" (bareRow "t" .scheduled) World.scheduledRow
      (TaskReconciler.plain.ticked scanned schedule World.scheduledRow) := by
  refine ⟨by decide +kernel, (waiting_left_alone_iff .plain World.scheduledRow (bareRow "t" .scheduled) "gpu" rfl ?_ ?_
    (find_storing _) ?_).mpr ?_⟩
  · intro q hq
    cases hq
    decide
  · intro x d hd
    cases hd
  · exact (SortedSet.mem_add _ _ _ _).mpr (.inl rfl)
  · rintro ⟨_, d, hs, he⟩
    cases hs
    exact absurd he.candidate (by decide +kernel)

end AsyncScheduler
