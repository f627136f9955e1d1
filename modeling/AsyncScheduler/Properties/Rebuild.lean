import AsyncScheduler.Platform.RebuildRun
import AsyncScheduler.Platform.RowEffects

/-!
# The rebuild only adds

What Redis holds before a rebuild it holds afterwards. What a rebuild adds is what the rows ask for,
so a second one finds nothing to add.
-/

namespace AsyncScheduler

namespace TaskReconciler
variable {r : Store} {row : TaskRecord} {k x : String} {rows : List TaskRecord}

theorem mem_rebuilt (h : x ∈ (rebuilt r row).zsets k) :
    x ∈ r.zsets k ∨ (row.taskId ≠ "" ∧ row.Waiting ∧ k = QueueKeys.pending row.taskType ∧ row.taskId = x) := by
  unfold rebuilt at h
  by_cases hid : row.taskId = ""
  · rw [if_pos hid] at h
    exact .inl h
  · rw [if_neg hid] at h
    unfold indexed at h
    rw [← Redis.zsets_of_sorted (sorted_cached r row)]
    split at h
    · rename_i ha
      by_cases hk : k = QueueKeys.pending row.taskType
      · rw [Redis.zsets_zadd, if_pos hk, SortedSet.mem_add] at h
        rcases h with hx | h
        · exact .inr ⟨hid, ha.1, hk, hx.symm⟩
        · exact .inl (hk ▸ h)
      · rw [Redis.zsets_zadd, if_neg hk] at h
        exact .inl h
    · exact .inl h

/-- What the rebuild adds to a set is a waiting row. -/
theorem mem_foldl_rebuilt (h : x ∈ (rows.foldl rebuilt r).zsets k) :
    x ∈ r.zsets k ∨ ∃ row ∈ rows, row.taskId ≠ "" ∧ row.Waiting ∧ k = QueueKeys.pending row.taskType ∧
      row.taskId = x := by
  induction rows generalizing r with
  | nil => exact .inl h
  | cons row rows ih =>
    rcases ih h with ho | ⟨later, hl, ha⟩
    · rcases mem_rebuilt ho with hb | ha
      · exact .inl hb
      · exact .inr ⟨row, List.mem_cons_self, ha⟩
    · exact .inr ⟨later, List.mem_cons_of_mem row hl, ha⟩

def Found (r : Store) (row : TaskRecord) : Prop :=
  row.taskId ≠ "" →
    Blob.truthy (r.get (taskKey row.taskId)) = true ∧ ¬ (row.Waiting ∧ Absent r row.taskType row.taskId)

theorem rebuilt_of_found (h : Found r row) : rebuilt r row = r := by
  unfold rebuilt
  by_cases hid : row.taskId = ""
  · exact if_pos hid
  · obtain ⟨hc, hi⟩ := h hid
    have hk : cached r row = r := if_pos hc
    rw [if_neg hid, hk]
    exact if_neg hi

theorem foldl_of_found (h : ∀ row ∈ rows, Found r row) : rows.foldl rebuilt r = r := by
  induction rows with
  | nil => rfl
  | cons row rows ih =>
    rw [List.foldl_cons, rebuilt_of_found (h row List.mem_cons_self)]
    exact ih fun row' hr' => h row' (List.mem_cons_of_mem row hr')

theorem found_foldl_rebuilt (rows : List TaskRecord) (r : Store) :
    ∀ row ∈ rows, Found (rows.foldl rebuilt r) row := by
  intro row hro hid
  refine ⟨truthy_foldl_rebuilt hro hid, ?_⟩
  rintro ⟨hw, hp, hr⟩
  rcases waits_or_runs_foldl_rebuilt (r := r) hro hid hw with h | h
  · exact (SortedSet.score_eq_none_iff _ _).mp hp h
  · exact (SortedSet.score_eq_none_iff _ _).mp hr h

/-- One undisturbed rebuild keeps every value of a task and every queue entry with its score, leaves
every named row with a value and every named waiting row in a queue, adds no other entry to any sorted
set, and leaves nothing to a second one. -/
theorem rebuild_only_adds (rc : TaskReconciler) (hdb : rc.hasDb = true) (w : World) :
    ∃ w', rc.rebuildRedisFromMysql.runWith Command.apply .ok w = (.ok (), w') ∧
      (∀ x, Blob.truthy (w.redis.get (taskKey x)) = true →
        w'.redis.strings (taskKey x) = w.redis.strings (taskKey x)) ∧
      (∀ c x score, w.redis.zscore (QueueKeys.pending c) x = some score →
        w'.redis.zscore (QueueKeys.pending c) x = some score) ∧
      (∀ c x score, w.redis.zscore (QueueKeys.running c) x = some score →
        w'.redis.zscore (QueueKeys.running c) x = some score) ∧
      (∀ row ∈ w.db.tasks.rows, row.taskId ≠ "" → Blob.truthy (w'.redis.get (taskKey row.taskId)) = true) ∧
      (∀ row ∈ w.db.tasks.rows, row.taskId ≠ "" → row.Waiting →
        row.taskId ∈ w'.redis.zsets (QueueKeys.pending row.taskType) ∨
          row.taskId ∈ w'.redis.zsets (QueueKeys.running row.taskType)) ∧
      (∀ k x, x ∈ w'.redis.zsets k → x ∉ w.redis.zsets k →
        ∃ row ∈ w.db.tasks.rows, row.Waiting ∧ k = QueueKeys.pending row.taskType ∧ row.taskId = x) ∧
      rc.rebuildRedisFromMysql.runWith Command.apply .ok w' = (.ok (), w') := by
  have hru (w : World) : rc.rebuildRedisFromMysql.runWith Command.apply .ok w =
      (.ok (), w.onRedis (w.db.tasks.rows.foldl rebuilt)) := by
    rw [runWith_rebuild, if_pos hdb]
  refine ⟨_, hru w, ?_, ?_, ?_, ?_, ?_, ?_, ?_⟩
  · intro x ht
    exact strings_foldl_of_truthy _ _ ht
  · intro c x score hs
    have hp : ¬ Absent w.redis c x := by
      intro ha
      rw [ha.1] at hs
      cases hs
    exact (zscore_foldl_rebuilt _ _ c x).trans ((if_neg fun h => hp h.2).trans hs)
  · intro c x score hs
    have hsa := zsets_foldl_running w.db.tasks.rows w.redis c
    exact (congrArg (SortedSet.score · x) hsa).trans hs
  · intro row hr hid
    exact truthy_foldl_rebuilt hr hid
  · intro row hr hid hw
    exact waits_or_runs_foldl_rebuilt hr hid hw
  · intro k x haf hb
    rcases mem_foldl_rebuilt haf with h | ⟨row, hr, _, has⟩
    · exact absurd h hb
    · exact ⟨row, hr, has⟩
  · rw [hru]
    have hf : w.db.tasks.rows.foldl rebuilt (w.db.tasks.rows.foldl rebuilt w.redis) =
        w.db.tasks.rows.foldl rebuilt w.redis := foldl_of_found (found_foldl_rebuilt _ _)
    simp only [World.onRedis]
    rw [hf]

theorem rebuild_only_adds_oneQueued :
    let rc : TaskReconciler := { instanceId := "r1" }
    let w := World.storing { bareRow "t1" .queued with taskType := "gpu" }
    (rc.rebuildRedisFromMysql.runWith Command.apply .ok w).2.redis.zscore (QueueKeys.pending "gpu") "t1" =
        some 0 ∧
      ∃ w', rc.rebuildRedisFromMysql.runWith Command.apply .ok w = (.ok (), w') ∧
        rc.rebuildRedisFromMysql.runWith Command.apply .ok w' = (.ok (), w') := by
  refine ⟨by decide +kernel, ?_⟩
  obtain ⟨w', hr, _, _, _, _, _, _, ha⟩ := rebuild_only_adds { instanceId := "r1" } rfl
    (World.storing { bareRow "t1" .queued with taskType := "gpu" })
  exact ⟨w', hr, ha⟩

def nameless : TaskRecord := { bareRow "" .queued with taskType := "gpu" }

theorem nameless_not_restored :
    let rebuilt := (TaskReconciler.rebuildRedisFromMysql { instanceId := "r1" }).runWith Command.apply .ok
      (World.storing nameless)
    (World.storing nameless).db.tasks.rows = [nameless] ∧ nameless.Waiting ∧ rebuilt.1 = .ok () ∧
      "" ∉ rebuilt.2.redis.zsets (QueueKeys.pending "gpu") ∧ "" ∉ rebuilt.2.redis.zsets (QueueKeys.running "gpu") := by
  decide +kernel

end TaskReconciler

end AsyncScheduler
