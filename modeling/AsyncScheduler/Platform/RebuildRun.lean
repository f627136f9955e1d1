import AsyncScheduler.Platform.ReconcilerScope

/-!
# The rebuild, undisturbed

What `_rebuild_redis_from_mysql` leaves in Redis when it runs alone and no call fails: a document
for every row that had none, and a queue entry for every waiting row that was in neither set of its
queue.
-/

namespace AsyncScheduler
open Prog Redis

def TaskRecord.Waiting (row : TaskRecord) : Prop :=
  row.taskType ≠ "" ∧ (row.status = .queued ∨ row.status = .scheduled)

instance (row : TaskRecord) : Decidable row.Waiting :=
  inferInstanceAs (Decidable (row.taskType ≠ "" ∧ (row.status = .queued ∨ row.status = .scheduled)))

def Absent (r : Store) (c x : String) : Prop :=
  r.zscore (QueueKeys.pending c) x = none ∧ r.zscore (QueueKeys.running c) x = none

instance (r : Store) (c x : String) : Decidable (Absent r c x) :=
  inferInstanceAs (Decidable (r.zscore (QueueKeys.pending c) x = none ∧ r.zscore (QueueKeys.running c) x = none))

namespace TaskReconciler

def cached (r : Store) (row : TaskRecord) : Store :=
  if Blob.truthy (r.get (taskKey row.taskId)) then r
  else r.set (taskKey row.taskId) (.task row.payload) (some 86400)

def indexed (r : Store) (row : TaskRecord) : Store :=
  if row.Waiting ∧ Absent r row.taskType row.taskId then
    r.zadd (QueueKeys.pending row.taskType) r.clock row.taskId
  else r

def rebuilt (r : Store) (row : TaskRecord) : Store :=
  if row.taskId = "" then r else indexed (cached r row) row

theorem runWith_rebuildCache (row : TaskRecord) (w : World) :
    (rebuildCache row).runWith Command.apply .ok w = (.ok (), w.onRedis (cached · row)) := by
  unfold rebuildCache
  rw [bind_eq, runWith_bind_ok (runWith_query w _)]
  by_cases h : Blob.truthy (w.redis.get (taskKey row.taskId)) = true
  · rw [if_pos h]
    simp [World.onRedis, cached, h]
  · rw [if_neg h, runWith_perform]
    simp [World.exec, World.onRedis, World.runKeys, KeyOp.exec, cached, h]

theorem runWith_rebuildIndex (row : TaskRecord) (w : World) :
    (rebuildIndex row).runWith Command.apply .ok w = (.ok (), w.onRedis (indexed · row)) := by
  unfold rebuildIndex
  by_cases hw : row.Waiting
  · rw [if_pos (show row.taskType ≠ "" ∧ _ from hw), bind_eq, runWith_bind_ok (runWith_query w _), bind_eq,
      runWith_bind_ok (runWith_query w _)]
    by_cases ha : Absent w.redis row.taskType row.taskId
    · rw [if_pos (show _ ∧ _ from ha), bind_eq, runWith_bind_ok (runWith_time w), runWith_perform]
      simp [World.exec, World.onRedis, QueueOp.exec, indexed, hw, ha]
    · rw [if_neg (show ¬(_ ∧ _) from ha)]
      simp [World.onRedis, indexed, ha]
  · rw [if_neg (show ¬(row.taskType ≠ "" ∧ _) from hw)]
    simp [World.onRedis, indexed, hw]

theorem runWith_rebuildRow (row : TaskRecord) (w : World) :
    (rebuildRow row).runWith Command.apply .ok w = (.ok (), w.onRedis (rebuilt · row)) := by
  unfold rebuildRow
  by_cases hid : row.taskId = ""
  · rw [if_pos hid]
    simp [World.onRedis, rebuilt, hid]
  · rw [if_neg hid, bind_eq, runWith_bind_ok (runWith_rebuildCache row w), runWith_rebuildIndex]
    simp [World.onRedis, rebuilt, hid]

theorem runWith_rebuild (rc : TaskReconciler) (w : World) :
    rc.rebuildRedisFromMysql.runWith Command.apply .ok w =
      (.ok (), if rc.hasDb then w.onRedis (w.db.tasks.rows.foldl rebuilt) else w) := by
  unfold rebuildRedisFromMysql
  by_cases hdb : rc.hasDb = true
  · rw [if_pos hdb, if_pos hdb, runWith_exceptException, runWith_session, bind_eq,
      runWith_bind_ok (runWith_query w _), runWith_forEach runWith_rebuildRow,
      World.foldl_onRedis]
  · rw [if_neg hdb, if_neg hdb]
    rfl

section
variable (r : Store) (row : TaskRecord) (c x : String)

theorem sorted_cached : (cached r row).sorted = r.sorted := by
  unfold cached
  split <;> rfl

theorem absent_cached : Absent (cached r row) c x ↔ Absent r c x := by
  unfold Absent Redis.zscore
  rw [zsets_of_sorted (sorted_cached r row)]

theorem clock_indexed : (indexed r row).clock = r.clock := by
  unfold indexed
  split <;> rfl

theorem zsets_indexed_running : (indexed r row).zsets (QueueKeys.running c) = r.zsets (QueueKeys.running c) := by
  unfold indexed
  split
  · rw [zsets_zadd, if_neg (pending_ne_running row.taskType c).symm]
  · rfl

theorem zscore_indexed :
    (indexed r row).zscore (QueueKeys.pending c) x =
      if row.Waiting ∧ row.taskType = c ∧ row.taskId = x ∧ Absent r c x then some r.clock
      else r.zscore (QueueKeys.pending c) x := by
  unfold indexed
  by_cases hr : row.taskType = c ∧ row.taskId = x
  · obtain ⟨rfl, rfl⟩ := hr
    by_cases h : row.Waiting ∧ Absent r row.taskType row.taskId
    · rw [if_pos h, zscore_zadd]
      simp [h]
    · rw [if_neg h, if_neg fun h' => h ⟨h'.1, h'.2.2.2⟩]
  · have ho : ¬ (row.Waiting ∧ row.taskType = c ∧ row.taskId = x ∧ Absent r c x) :=
      fun h => hr ⟨h.2.1, h.2.2.1⟩
    rw [if_neg ho]
    split
    · rw [zscore_zadd, if_neg]
      rintro ⟨hc, hx⟩
      exact hr ⟨(pending_eq_pending.mp hc).symm, hx.symm⟩
    · rfl

end

section
variable (rows : List TaskRecord) (r : Store) (c x : String)

theorem clock_rebuilt (row : TaskRecord) : (rebuilt r row).clock = r.clock := by
  unfold rebuilt
  split
  · rfl
  · rw [clock_indexed, clock_of_sorted (sorted_cached r row)]

theorem zsets_rebuilt_running (row : TaskRecord) :
    (rebuilt r row).zsets (QueueKeys.running c) = r.zsets (QueueKeys.running c) := by
  unfold rebuilt
  split
  · rfl
  · rw [zsets_indexed_running, zsets_of_sorted (sorted_cached r row)]

theorem zscore_rebuilt (row : TaskRecord) :
    (rebuilt r row).zscore (QueueKeys.pending c) x =
      if row.taskId ≠ "" ∧ row.Waiting ∧ row.taskType = c ∧ row.taskId = x ∧ Absent r c x then some r.clock
      else r.zscore (QueueKeys.pending c) x := by
  have hc : (cached r row).zscore (QueueKeys.pending c) x = r.zscore (QueueKeys.pending c) x := by
    unfold Redis.zscore
    rw [zsets_of_sorted (sorted_cached r row)]
  unfold rebuilt
  by_cases hid : row.taskId = ""
  · simp [hid]
  · rw [if_neg hid, zscore_indexed, hc, clock_of_sorted (sorted_cached r row)]
    simp only [absent_cached, ne_eq, hid, not_false_eq_true, true_and]

theorem clock_foldl_rebuilt : (rows.foldl rebuilt r).clock = r.clock := by
  induction rows generalizing r with
  | nil => rfl
  | cons row rows ih => exact (ih (rebuilt r row)).trans (clock_rebuilt r row)

theorem zsets_foldl_running : (rows.foldl rebuilt r).zsets (QueueKeys.running c) = r.zsets (QueueKeys.running c) := by
  induction rows generalizing r with
  | nil => rfl
  | cons row rows ih => exact (ih (rebuilt r row)).trans (zsets_rebuilt_running r c row)

/-- Some row asks for an entry of `x` in the queue `c`. -/
def Asked (rows : List TaskRecord) (c x : String) : Prop :=
  ∃ row ∈ rows, row.taskId ≠ "" ∧ row.Waiting ∧ row.taskType = c ∧ row.taskId = x

instance : Decidable (Asked rows c x) :=
  inferInstanceAs (Decidable (∃ row ∈ rows, row.taskId ≠ "" ∧ row.Waiting ∧ row.taskType = c ∧ row.taskId = x))

/-- The rebuild gives a lost waiting task the present as its score and changes no other entry. -/
theorem zscore_foldl_rebuilt :
    (rows.foldl rebuilt r).zscore (QueueKeys.pending c) x =
      if Asked rows c x ∧ Absent r c x then some r.clock else r.zscore (QueueKeys.pending c) x := by
  induction rows generalizing r with
  | nil => simp [Asked]
  | cons row rows ih =>
    rw [List.foldl_cons, ih, clock_rebuilt, zscore_rebuilt]
    by_cases hro : row.taskId ≠ "" ∧ row.Waiting ∧ row.taskType = c ∧ row.taskId = x ∧ Absent r c x
    · -- restored by this row: the later ones find it
      have ha : Asked (row :: rows) c x :=
        ⟨row, List.mem_cons_self, hro.1, hro.2.1, hro.2.2.1, hro.2.2.2.1⟩
      have hp : ¬ Absent (rebuilt r row) c x := by
        intro h
        have hs := h.1
        rw [zscore_rebuilt, if_pos hro] at hs
        cases hs
      rw [if_pos hro, if_neg fun h => hp h.2, if_pos ⟨ha, hro.2.2.2.2⟩]
    · have hab : Absent (rebuilt r row) c x ↔ Absent r c x := by
        have hr : (rebuilt r row).zscore (QueueKeys.running c) x = r.zscore (QueueKeys.running c) x := by
          unfold Redis.zscore
          rw [zsets_rebuilt_running]
        unfold Absent
        rw [zscore_rebuilt, if_neg hro, hr]
      rw [if_neg hro]
      by_cases h : Absent r c x
      · have ha : Asked (row :: rows) c x ↔ Asked rows c x := by
          unfold Asked
          rw [List.exists_mem_cons_iff]
          refine or_iff_right fun h' => hro ⟨h'.1, h'.2.1, h'.2.2.1, h'.2.2.2, h⟩
        simp only [ha, hab]
      · simp only [hab, h, and_false, if_false]

end

section
variable (r : Store) (row : TaskRecord) (k : String)

theorem strings_indexed : (indexed r row).strings = r.strings := by
  unfold indexed
  split <;> rfl

theorem strings_rebuilt :
    (rebuilt r row).strings k =
      if row.taskId ≠ "" ∧ k = taskKey row.taskId ∧ Blob.truthy (r.get k) = false then
        some (.task row.payload, some (r.clock + 86400))
      else r.strings k := by
  unfold rebuilt
  by_cases hid : row.taskId = ""
  · simp [hid]
  · rw [if_neg hid, strings_indexed]
    unfold cached
    by_cases hk : k = taskKey row.taskId
    · subst hk
      by_cases ht : Blob.truthy (r.get (taskKey row.taskId)) = true
      · simp [ht]
      · rw [if_neg ht, strings_set]
        simp [hid, Bool.eq_false_iff.mpr ht]
    · have ho : ¬ (row.taskId ≠ "" ∧ k = taskKey row.taskId ∧ Blob.truthy (r.get k) = false) :=
        fun h => hk h.2.1
      rw [if_neg ho]
      split
      · rfl
      · exact strings_set_of_ne r _ k _ _ hk

end

section
variable (rows : List TaskRecord) (r : Store)

theorem strings_foldl_of_ne {k : String} (hk : ∀ x, x ≠ "" → k ≠ taskKey x) :
    (rows.foldl rebuilt r).strings k = r.strings k := by
  induction rows generalizing r with
  | nil => rfl
  | cons row rows ih =>
    rw [List.foldl_cons, ih, strings_rebuilt, if_neg fun h => hk _ h.1 h.2.1]

theorem strings_foldl_of_truthy {x : String} (h : Blob.truthy (r.get (taskKey x)) = true) :
    (rows.foldl rebuilt r).strings (taskKey x) = r.strings (taskKey x) := by
  induction rows generalizing r with
  | nil => rfl
  | cons row rows ih =>
    have hs : (rebuilt r row).strings (taskKey x) = r.strings (taskKey x) := by
      rw [strings_rebuilt, if_neg]
      rintro ⟨_, _, hf⟩
      rw [h] at hf
      cases hf
    rw [List.foldl_cons, ih (rebuilt r row) (by rwa [Redis.get, hs]), hs]

theorem get_foldl_rebuilt {x : String} {d : TaskDoc} (h : (rows.foldl rebuilt r).get (taskKey x) = some (.task d)) :
    r.get (taskKey x) = some (.task d) ∨ d.idText = x := by
  induction rows generalizing r with
  | nil => exact .inl h
  | cons row rows ih =>
    rcases ih (rebuilt r row) h with hget | hn
    · unfold Redis.get at hget
      rw [strings_rebuilt] at hget
      split at hget
      · rename_i hc
        cases hget
        exact .inr (append_right_inj hc.2.1).symm
      · exact .inl hget
    · exact .inr hn

theorem strings_foldl_of_missing {x : String} (hx : x ≠ "") (h : Blob.truthy (r.get (taskKey x)) = false) :
    (rows.foldl rebuilt r).strings (taskKey x) =
      match rows.find? (·.taskId = x) with
      | some row => some (.task row.payload, some (r.clock + 86400))
      | none => r.strings (taskKey x) := by
  induction rows generalizing r with
  | nil => rfl
  | cons row rows ih =>
    rw [List.foldl_cons, List.find?_cons]
    by_cases hr : row.taskId = x
    · subst hr
      have hc : (rebuilt r row).strings (taskKey row.taskId) =
          some (.task row.payload, some (r.clock + 86400)) := by
        rw [strings_rebuilt, if_pos ⟨hx, rfl, h⟩]
      rw [strings_foldl_of_truthy rows _ (by rw [Redis.get, hc]; rfl), hc]
      simp
    · have ho : (rebuilt r row).strings (taskKey x) = r.strings (taskKey x) := by
        rw [strings_rebuilt, if_neg fun h => hr (append_right_inj h.2.1).symm]
      rw [ih (rebuilt r row) (by rwa [Redis.get, ho]), clock_rebuilt, ho]
      simp [hr]

end

section
variable {rows : List TaskRecord} {r : Store} {row : TaskRecord} (hmem : row ∈ rows) (hid : row.taskId ≠ "")
include hmem hid

theorem truthy_foldl_rebuilt : Blob.truthy ((rows.foldl rebuilt r).get (taskKey row.taskId)) = true := by
  unfold Redis.get
  by_cases ht : Blob.truthy (r.get (taskKey row.taskId)) = true
  · rw [strings_foldl_of_truthy rows r ht]
    exact ht
  · have hfo : (rows.find? (·.taskId = row.taskId)).isSome = true :=
      List.find?_isSome.mpr ⟨row, hmem, by simp⟩
    obtain ⟨first, hf⟩ := Option.isSome_iff_exists.mp hfo
    rw [strings_foldl_of_missing rows r hid (by simpa using ht), hf]
    rfl

theorem waits_or_runs_foldl_rebuilt (hw : row.Waiting) :
    row.taskId ∈ (rows.foldl rebuilt r).zsets (QueueKeys.pending row.taskType) ∨
      row.taskId ∈ (rows.foldl rebuilt r).zsets (QueueKeys.running row.taskType) := by
  have has : Asked rows row.taskType row.taskId := ⟨row, hmem, hid, hw, rfl, rfl⟩
  have hs := zscore_foldl_rebuilt rows r row.taskType row.taskId
  by_contra h
  obtain ⟨hp, hr⟩ := not_or.mp h
  rw [zsets_foldl_running] at hr
  rw [Redis.zscore, (SortedSet.score_eq_none_iff _ _).mpr hp] at hs
  by_cases ha : Absent r row.taskType row.taskId
  · rw [if_pos ⟨has, ha⟩] at hs
    cases hs
  · rw [if_neg fun h => ha h.2] at hs
    exact ha ⟨hs.symm, (SortedSet.score_eq_none_iff _ _).mpr hr⟩

end

end TaskReconciler

end AsyncScheduler
