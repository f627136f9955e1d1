import AsyncScheduler.Platform.QueueRun
import AsyncScheduler.Platform.RebuildRun

/-!
# Priority order of rebuilt entries

An enqueue scores an entry with ten to the thirteen times the weight of its priority, plus a time in
milliseconds.
-/

namespace AsyncScheduler
open SortedSet

def Encodes (p : TaskPriority) (score : ℚ) : Prop :=
  ⌊score / 10000000000000⌋ = p.weight ∧ ∃ ms : Int, scoreTime score = ms

def ScoresDecode (w : World) : Prop :=
  ∀ row ∈ w.db.tasks.rows, row.status = .queued → ∀ score,
    w.redis.zscore (QueueKeys.pending row.taskType) row.taskId = some score → Encodes row.priority score

/-- A dequeue returns no queued task while a ready one of higher priority waits in its queue. -/
def PriorityOrder (w : World) : Prop :=
  ∀ (q : QueueManager) (w' : World), ∀ a ∈ w.db.tasks.rows, ∀ b ∈ w.db.tasks.rows, ∀ score,
    a.status = .queued → b.status = .queued → a.taskType = b.taskType →
    w.redis.zscore (QueueKeys.pending b.taskType) b.taskId = some score →
    scoreTime score ≤ toMs w.redis.clock →
    (q.dequeueReady a.taskType).runWith Command.apply .ok w = (.ok (some a.taskId), w') →
    a.priority.weight ≤ b.priority.weight

/-- A queued row that the rebuild restores. -/
structure Lost (w : World) (row : TaskRecord) : Prop where
  stored : row ∈ w.db.tasks.rows
  queued : row.status = .queued
  named : row.taskId ≠ ""
  typed : row.taskType ≠ ""
  absent : Absent w.redis row.taskType row.taskId

/-- The task that is handed out has the least score. -/
theorem firstReady_le {r : Store} {c x : String} {nowMs limit : Int} {score score' : ℚ} {y : String}
    (hx : firstReady c nowMs limit r = some x) (hsc : r.zscore (QueueKeys.pending c) x = some score)
    (hy : r.zscore (QueueKeys.pending c) y = some score') (hr : scoreTime score' ≤ nowMs) : score ≤ score' := by
  obtain ⟨e, he, rfl⟩ := Option.map_eq_some_iff.mp hx
  have hen := (score_eq_some_iff _ _ _).mp hsc
  have hf : e.2 ≤ score' := by
    have hp : decide (scoreTime (y, score').2 ≤ nowMs) = true := decide_eq_true hr
    have hy := (score_eq_some_iff _ _ _).mp hy
    unfold Redis.zrangeAll at he
    split at he
    · rw [← List.take_length (l := (r.zsets (QueueKeys.pending c)).entries)] at he
      exact find_take_le _ he hy hp
    · exact find_take_le _ he hy hp
  have hm := Redis.mem_of_mem_zrangeAll (List.mem_of_find?_eq_some he)
  obtain rfl : score = e.2 := by
    have hs := List.inj_on_of_nodup_map (r.zsets (QueueKeys.pending c)).distinct hen hm rfl
    rw [← hs]
  exact hf

theorem priorityOrder_of_decode {w : World} (h : ScoresDecode w) : PriorityOrder w := by
  intro q w' a ha b hb score hqa hqb ht hsc hr hd
  have hf := firstReady_of_dequeue (q.dequeueReady_eq_some _ hd)
  have hz := Redis.zsets_of_sorted (q.sorted_probed a.taskType w.redis)
  have hf : firstReady a.taskType (toMs w.redis.clock) q.scanLimit w.redis = some a.taskId := by
    unfold firstReady Redis.zrangeAll at hf ⊢
    rwa [hz] at hf
  obtain ⟨scoreA, hsco⟩ : ∃ s, w.redis.zscore (QueueKeys.pending a.taskType) a.taskId = some s := by
    obtain ⟨s, hs, _⟩ := score_firstReady hf
    exact ⟨s, hs⟩
  have hle : scoreA ≤ score := firstReady_le hf hsco (ht ▸ hsc) hr
  rw [← (h a ha hqa scoreA hsco).1, ← (h b hb hqb score hsc).1]
  exact Int.floor_le_floor (by gcongr)

theorem decode_advance {w : World} (t : ℚ) (h : ScoresDecode w) : ScoresDecode (w.exec (.advance t)) := by
  change ScoresDecode (if w.redis.clock < t then w.onRedis (·.advance t) else w)
  split
  · intro row hr hq score hs
    refine h row hr hq score ?_
    have he := (score_eq_some_iff _ _ _).mp hs
    change _ ∈ ((w.redis.advance t).zsets _).entries at he
    rw [Redis.zsets_advance] at he
    split at he
    · exact (score_eq_some_iff _ _ _).mpr he
    · cases he
  · exact h

open TaskReconciler

theorem decode_rebuild_iff (rc : TaskReconciler) (w : World) :
    ScoresDecode (rc.rebuildRedisFromMysql.runWith Command.apply .ok w).2 ↔
      ScoresDecode w ∧ (rc.hasDb = true → ∀ row, Lost w row → Encodes row.priority w.redis.clock) := by
  rw [runWith_rebuild]
  by_cases hdb : rc.hasDb = true
  · simp only [hdb, if_true, forall_const]
    constructor
    · intro h
      refine ⟨fun row hro hq score hs => h row hro hq score ?_, fun row hl => ?_⟩
      · change (List.foldl rebuilt w.redis _).zscore _ _ = _
        rw [zscore_foldl_rebuilt, if_neg, hs]
        rintro ⟨_, ha, _⟩
        rw [hs] at ha
        cases ha
      · refine h row hl.stored hl.queued _ ?_
        change (List.foldl rebuilt w.redis _).zscore _ _ = _
        rw [zscore_foldl_rebuilt, if_pos]
        exact ⟨⟨row, hl.stored, hl.named, ⟨hl.typed, .inl hl.queued⟩, rfl, rfl⟩, hl.absent⟩
    · rintro ⟨hb, hl⟩ row hro hq score hs
      change (List.foldl rebuilt w.redis w.db.tasks.rows).zscore _ _ = _ at hs
      rw [zscore_foldl_rebuilt] at hs
      split at hs
      · rename_i hr
        obtain ⟨⟨row', _, hn, ⟨hty, _⟩, ht, hid⟩, ha⟩ := hr
        obtain rfl := Option.some.inj hs
        exact hl row ⟨hro, hq, hid ▸ hn, ht ▸ hty, ha⟩
      · exact hb row hro hq score hs
  · simp [hdb]

theorem not_encodes_clock (p : TaskPriority) {clock : ℚ} (h : 0 ≤ clock) (h' : clock < 10000000000000) :
    ¬ Encodes p clock := by
  rintro ⟨hw, _⟩
  have hz : ⌊clock / 10000000000000⌋ = 0 := by
    rw [Int.floor_eq_zero_iff]
    constructor
    · positivity
    · rw [div_lt_one (by norm_num)]
      exact h'
  rw [hz] at hw
  cases p <;> cases hw

/-- What the rebuild is to leave behind: scores that decode, and dequeues that keep to the priorities
at every later instant. -/
def KeepsPriorities (rc : TaskReconciler) (w : World) : Prop :=
  ScoresDecode (rc.rebuildRedisFromMysql.runWith Command.apply .ok w).2 ∧
    ∀ t, PriorityOrder ((rc.rebuildRedisFromMysql.runWith Command.apply .ok w).2.exec (.advance t))

theorem keepsPriorities_iff_decode (rc : TaskReconciler) (w : World) :
    KeepsPriorities rc w ↔ ScoresDecode (rc.rebuildRedisFromMysql.runWith Command.apply .ok w).2 := by
  constructor
  · exact fun h => h.1
  · exact fun h => ⟨h, fun t => priorityOrder_of_decode (decode_advance t h)⟩

/-- An undisturbed rebuild keeps the priorities exactly when the scores decoded before and the time in
seconds stands for the priority of every queued row that was missing; so, for any real time, when
none was missing. -/
theorem rebuild_keeps_priorities_iff (rc : TaskReconciler) (w : World) : (KeepsPriorities rc w ↔
      ScoresDecode w ∧ (rc.hasDb = true → ∀ row, Lost w row → Encodes row.priority w.redis.clock)) ∧
    (0 ≤ w.redis.clock → w.redis.clock < 10000000000000 →
      (KeepsPriorities rc w ↔ ScoresDecode w ∧ (rc.hasDb = true → ∀ row, ¬ Lost w row))) := by
  have hi : KeepsPriorities rc w ↔
      ScoresDecode w ∧ (rc.hasDb = true → ∀ row, Lost w row → Encodes row.priority w.redis.clock) := by
    rw [keepsPriorities_iff_decode, decode_rebuild_iff]
  refine ⟨hi, fun hc hc' => ?_⟩
  rw [hi]
  simp only [not_encodes_clock _ hc hc', imp_false]

/-- A task of the lowest priority that is in no queue, and a waiting one of the highest. -/
def World.lowLost : World :=
  ((World.empty.exec (.advance 1000)).exec (.commit [
    .insertTask { taskId := "low", tenantId := "acme", taskType := "gpu", status := "queued", priority := .tide },
    .insertTask { taskId := "high", tenantId := "acme", taskType := "gpu", status := "queued",
                  priority := .veryHigh }])).exec
    (.queue (.enqueue "gpu" "high" (QueueManager.score TaskPriority.veryHigh.weight 0 1000000) 1000 3600))

theorem lowLost_overtakes :
    let rebuilt := (TaskReconciler.rebuildRedisFromMysql { instanceId := "r1" }).runWith Command.apply .ok
      World.lowLost
    rebuilt.2.redis.zscore (QueueKeys.pending "gpu") "low" = some 1000 ∧
    rebuilt.2.redis.zscore (QueueKeys.pending "gpu") "high" = some 10000001000000 ∧
    ((QueueManager.dequeueReady {} "gpu").runWith Command.apply .ok rebuilt.2).1 = .ok (some "low") := by
  decide +kernel

def World.highQueued : World :=
  ((World.empty.exec (.advance 1000)).exec (.commit [
    .insertTask { taskId := "high", tenantId := "acme", taskType := "gpu", status := "queued",
                  priority := .veryHigh }])).exec
    (.queue (.enqueue "gpu" "high" (QueueManager.score TaskPriority.veryHigh.weight 0 1000000) 1000 3600))

theorem rebuild_keeps_priorities_iff_high : KeepsPriorities { instanceId := "r1" } World.highQueued := by
  have hr : World.highQueued.db.tasks.rows.map (fun row => (row.taskId, row.taskType, row.priority)) =
    [("high", "gpu", .veryHigh)] := by decide +kernel
  have hs : World.highQueued.redis.zscore (QueueKeys.pending "gpu") "high" = some 10000001000000 := by decide +kernel
  have hro (row : TaskRecord) (h : row ∈ World.highQueued.db.tasks.rows) :
      row.taskId = "high" ∧ row.taskType = "gpu" ∧ row.priority = .veryHigh := by
    have hm := List.mem_map_of_mem (f := fun row => (row.taskId, row.taskType, row.priority)) h
    rw [hr] at hm
    simpa using hm
  refine ((rebuild_keeps_priorities_iff { instanceId := "r1" } World.highQueued).2 (by decide +kernel)
    (by decide +kernel)).mpr ⟨?_, ?_⟩
  · intro row hm _ score hz
    obtain ⟨hid, ht, hp⟩ := hro row hm
    rw [hid, ht, hs] at hz
    obtain rfl := Option.some.inj hz
    rw [hp]
    exact ⟨by decide +kernel, 1000000, by decide +kernel⟩
  · rintro _ row ⟨hm, _, _, _, ha⟩
    obtain ⟨hid, ht, _⟩ := hro row hm
    rw [hid, ht] at ha
    revert ha
    decide +kernel

end AsyncScheduler
