import AsyncScheduler.Platform.QueueRun
import AsyncScheduler.Platform.ReconcilerScope
import AsyncScheduler.Platform.RowEffects

/-!
# Phase 2, undisturbed

What `_phase2_stuck_recovery` does when it runs alone and no call fails: which documents it takes
on, and the two stores it leaves.
-/

namespace AsyncScheduler
open Prog Redis List

def TaskRecord.retried (row : TaskRecord) (now : ℚ) : TaskRecord :=
  { row with attempt := row.attempt + 1, updatedAt := now }

namespace TaskReconciler
variable {rc : TaskReconciler} {r : Store} {t : TaskDoc} {batch : List TaskDoc}

def Skips (rc : TaskReconciler) (now : ℚ) (t : TaskDoc) (lockExists : Bool) (r : Store) : Prop :=
  t.idText = "" ∨ lockExists = true ∨ rc.tooYoung now t = true ∨
    r.existsKey (requeueDedupKey t.idText) = true

instance (rc : TaskReconciler) (now : ℚ) (t : TaskDoc) (lockExists : Bool) (r : Store) :
    Decidable (rc.Skips now t lockExists r) :=
  inferInstanceAs (Decidable (t.idText = "" ∨ lockExists = true ∨ rc.tooYoung now t = true ∨
    r.existsKey (requeueDedupKey t.idText) = true))

def marked (r : Store) (t : TaskDoc) : Store := r.set (requeueDedupKey t.idText) (.text "1") (some 300)

def select (rc : TaskReconciler) (now : ℚ) : List (TaskDoc × Bool) → Nat → Store → List TaskDoc
  | [], _, _ => []
  | (t, lockExists) :: rest, stuckCount, r =>
    if rc.stuckMaxPerTick ≤ stuckCount then []
    else if rc.Skips now t lockExists r then select rc now rest stuckCount r
    else t :: select rc now rest (stuckCount + 1) (marked r t)

def requeueInfos (rc : TaskReconciler) (ts : List TaskDoc) : List RequeueInfo :=
  (ts.filter (rc.Requeues ·)).map requeueInfo

def failIds (rc : TaskReconciler) (ts : List TaskDoc) : List String :=
  (ts.filter (¬ rc.Requeues ·)).map TaskDoc.idText

theorem exec_setNx (w : World) (k : String) (v : Blob) (ex : ℚ) :
    w.exec (.keys [(k, .setNx v ex)]) = if w.redis.existsKey k then w else w.onRedis (·.set k v (some ex)) := by
  by_cases h : w.redis.existsKey k = true <;>
    simp [World.exec, World.onRedis, World.runKeys, KeyOp.exec, Redis.setNx, h]

/-- The undisturbed selection, as a function of the store. -/
theorem runWith_selectStuck (rc : TaskReconciler) (now : ℚ) (locked : List (TaskDoc × Bool)) (n : Nat)
    (requeue : List RequeueInfo) (fail : List String) (w : World) :
    (rc.selectStuck now locked n requeue fail).runWith Command.apply .ok w =
      (.ok (requeue ++ rc.requeueInfos (rc.select now locked n w.redis),
        fail ++ rc.failIds (rc.select now locked n w.redis)),
        w.onRedis fun r => (rc.select now locked n r).foldl marked r) := by
  induction locked generalizing n requeue fail w with
  | nil => simp [selectStuck, select, requeueInfos, failIds, World.onRedis]
  | cons e rest ih =>
    obtain ⟨t, lockExists⟩ := e
    unfold selectStuck select World.onRedis
    dsimp only
    by_cases hc : rc.stuckMaxPerTick ≤ n
    · rw [if_pos hc, if_pos hc]
      simp [requeueInfos, failIds]
    rw [if_neg hc, if_neg hc]
    by_cases hse : t.idText = "" ∨ lockExists = true ∨ rc.tooYoung now t = true
    · have hs : rc.Skips now t lockExists w.redis := by
        unfold Skips
        tauto
      rw [if_pos hse, if_pos hs, ih]
      rfl
    rw [if_neg hse, bind_eq, runWith_bind, runWith_await, exec_setNx]
    by_cases hm : w.redis.existsKey (requeueDedupKey t.idText) = true
    · -- `SET NX` finds the marker of an earlier selection
      have hs : rc.Skips now t lockExists w.redis := .inr (.inr (.inr hm))
      simp only [hm, Bool.not_true, Bool.not_false, if_true, if_pos hs]
      rw [ih]
      rfl
    · have ht : ¬ rc.Skips now t lockExists w.redis := by
        unfold Skips
        tauto
      simp only [hm, Bool.not_false, Bool.not_true, Bool.false_eq_true, if_false, if_neg ht]
      by_cases hr : rc.Requeues t
      · rw [if_pos (show _ ∧ _ from hr), ih]
        simp [World.onRedis, marked, requeueInfos, failIds, hr]
      · rw [if_neg (show ¬ (_ ∧ _) from hr), ih]
        simp [World.onRedis, marked, requeueInfos, failIds, hr]

variable {now : ℚ} {locked : List (TaskDoc × Bool)} {n : Nat}

theorem existsKey_marked (r : Store) (t : TaskDoc) (k : String) :
    (marked r t).existsKey k = (decide (k = requeueDedupKey t.idText) || r.existsKey k) := by
  unfold marked Redis.existsKey
  rw [strings_set]
  by_cases hk : k = requeueDedupKey t.idText <;> simp [hk]

theorem mem_select (h : t ∈ rc.select now locked n r) :
    (t, false) ∈ locked ∧ ¬ rc.Skips now t false r ∧ 0 < rc.stuckMaxPerTick := by
  induction locked generalizing n r with
  | nil => cases h
  | cons e rest ih =>
    obtain ⟨u, lockExists⟩ := e
    unfold select at h
    split at h
    · cases h
    rename_i hc
    split at h
    · obtain ⟨hm, hr⟩ := ih h
      exact ⟨mem_cons_of_mem _ hm, hr⟩
    rename_i ht
    rcases mem_cons.mp h with rfl | h
    · have hu : lockExists = false := by
        unfold Skips at ht
        simpa using fun hl => ht (.inr (.inl hl))
      subst hu
      exact ⟨mem_cons_self, ht, by omega⟩
    · obtain ⟨hm, ht', hpos⟩ := ih h
      refine ⟨mem_cons_of_mem _ hm, fun hs => ht' ?_, hpos⟩
      -- a marker more only makes phase 2 pass over more
      unfold Skips at hs ⊢
      rw [existsKey_marked]
      simp only [Bool.or_eq_true]
      tauto

theorem nodup_select : ((rc.select now locked n r).map TaskDoc.idText).Nodup := by
  induction locked generalizing n r with
  | nil => exact nodup_nil
  | cons e rest ih =>
    obtain ⟨u, lockExists⟩ := e
    unfold select
    split
    · exact nodup_nil
    · split
      · exact ih
      · refine nodup_cons.mpr ⟨fun hm => ?_, ih⟩
        obtain ⟨t, ht, hn⟩ := mem_map.mp hm
        refine (mem_select ht).2.1 (.inr (.inr (.inr ?_)))
        rw [existsKey_marked, hn]
        simp

theorem edits_marked {ks : List String} {r' : Store} {ts : List TaskDoc} (h : Edits ks r r')
    (hts : ∀ t ∈ ts, requeueDedupKey t.idText ∈ ks) : Edits ks r (ts.foldl marked r') := by
  induction ts generalizing r' with
  | nil => exact h
  | cons t ts ih =>
    exact ih (.setText _ _ (hts t mem_cons_self) h) fun t' ht' => hts t' (mem_cons_of_mem _ ht')

def bumped (rc : TaskReconciler) (requeue : List RequeueInfo) (w : World) : World :=
  if rc.hasDb ∧ requeue ≠ [] then w.exec (.commit [.bumpAttempts (requeue.map RequeueInfo.taskId)]) else w

theorem runWith_bumpAttempts (rc : TaskReconciler) (requeue : List RequeueInfo) (w : World) :
    (rc.bumpAttempts requeue).runWith Command.apply .ok w = (.ok (), rc.bumped requeue w) := by
  unfold bumpAttempts bumped
  split
  · rw [runWith_exceptException, runWith_session, bind_eq, runWith_bind_ok (runWith_query w _)]
    rfl
  · rfl

def requeueScore (nowMs : Int) (info : RequeueInfo) (r : Store) : ℚ :=
  QueueManager.score info.priorityRank (nowMs + min 600000 (10000 * twoPow info.attempt)) (toMs r.clock)

/-- Redis after the requeues, and whether the breaker let all of them through. -/
def requeued (q : QueueManager) (nowMs : Int) : List RequeueInfo → Store → Bool × Store
  | [], r => (true, r)
  | info :: rest, r =>
    if info.capability = "" then requeued q nowMs rest r
    else if q.Admits info.capability r then
      requeued q nowMs rest (q.enqueued info.capability info.taskId (requeueScore nowMs info r) r)
    else (false, q.probed info.capability r)

/-- The undisturbed requeues: the first refusal ends them. -/
theorem runWith_requeues (q : QueueManager) (nowMs : Int) (infos : List RequeueInfo) (w : World) :
    ∃ e, (Prog.forEach (requeueOne q nowMs) infos).runWith Command.apply .ok w =
      (if (requeued q nowMs infos w.redis).1 then .ok () else .error e,
        w.onRedis fun r => (requeued q nowMs infos r).2) := by
  induction infos generalizing w with
  | nil => exact ⟨connectionLost, rfl⟩
  | cons info rest ih =>
    unfold Prog.forEach requeueOne requeued World.onRedis
    dsimp only
    by_cases hem : info.capability = ""
    · obtain ⟨e, he⟩ := ih w
      refine ⟨e, ?_⟩
      rw [if_pos hem, if_pos hem]
      exact he
    rw [if_neg hem, if_neg hem]
    by_cases ha : q.Admits info.capability w.redis
    · obtain ⟨result, hr⟩ := q.runWith_enqueue info.capability info.taskId info.priorityRank
        (nowMs + min 600000 (10000 * twoPow info.attempt)) ha
      have hv := runWith_bind_ok hr (fun _ => .ret ())
      obtain ⟨e, he⟩ := ih (w.onRedis (q.enqueued info.capability info.taskId (requeueScore nowMs info w.redis)))
      refine ⟨e, ?_⟩
      rw [if_pos ha, Prog.void, runWith_bind_ok hv]
      exact he
    · obtain ⟨e, hr⟩ := q.runWith_enqueue_refused info.capability info.taskId info.priorityRank
        (nowMs + min 600000 (10000 * twoPow info.attempt)) ha
      refine ⟨e, ?_⟩
      rw [if_neg ha, Prog.void, runWith_bind, runWith_bind, hr]
      rfl

def failed (fail : List String) (r : Store) : Store :=
  World.runKeys r ((fail.map fun id => (id, (r.get (taskKey id)).bind Blob.taskDoc)).filterMap fun e =>
    e.2.map fun t => (taskKey e.1, .set (.task (markFailed t)) none))

theorem runWith_failTasks (fail : List String) (w : World) :
    (failTasks fail).runWith Command.apply .ok w = (.ok (), w.onRedis (failed fail)) := by
  unfold failTasks
  split
  · rename_i h
    rw [h]
    rfl
  · rw [bind_eq, runWith_bind_ok (runWith_query w _), runWith_perform]
    rfl

def requeuedBy (rc : TaskReconciler) (requeue : List RequeueInfo) (r : Store) : Bool × Store :=
  match rc.queueManager with
  | some q => requeued q (toMs r.clock) requeue r
  | none => (true, r)

def recovered (rc : TaskReconciler) (requeue : List RequeueInfo) (fail : List String) (w : World) : World :=
  (rc.bumped requeue w).onRedis fun r =>
    if (rc.requeuedBy requeue r).1 then failed fail (rc.requeuedBy requeue r).2 else (rc.requeuedBy requeue r).2

theorem world_recover (rc : TaskReconciler) (requeue : List RequeueInfo) (fail : List String) (w : World) :
    ((rc.recover requeue fail).runWith Command.apply .ok w).2 = rc.recovered requeue fail w := by
  unfold recover recovered requeuedBy
  rw [bind_eq, runWith_bind_ok (rc.runWith_bumpAttempts requeue w), bind_eq, runWith_bind_ok (runWith_time _)]
  cases rc.queueManager with
  | none => exact congrArg Prod.snd (runWith_failTasks fail _)
  | some q =>
    obtain ⟨e, hr⟩ := runWith_requeues q (toMs (rc.bumped requeue w).redis.clock) requeue (rc.bumped requeue w)
    dsimp only
    rw [bind_eq, runWith_bind, hr]
    unfold World.onRedis
    dsimp only
    by_cases ha : (requeued q (toMs (rc.bumped requeue w).redis.clock) requeue (rc.bumped requeue w).redis).1 = true
    · rw [if_pos ha, if_pos ha]
      exact congrArg Prod.snd (runWith_failTasks fail _)
    · rw [if_neg ha, if_neg ha]

def lockedBatch (batch : List TaskDoc) (r : Store) : List (TaskDoc × Bool) :=
  (batch.filter isStuckCandidate).map fun t => (t, r.existsKey (lockKey t.idText))

def taken (rc : TaskReconciler) (batch : List TaskDoc) (r : Store) : List TaskDoc :=
  rc.select r.clock (lockedBatch batch r) 0 r

/-- Phase 2 takes the document on if nothing before it in its batch uses up the cap. -/
structure Eligible (rc : TaskReconciler) (r : Store) (t : TaskDoc) : Prop where
  candidate : isStuckCandidate t = true
  named : t.idText ≠ ""
  unlocked : r.existsKey (lockKey t.idText) = false
  old : rc.tooYoung r.clock t = false
  unmarked : r.existsKey (requeueDedupKey t.idText) = false
  capacity : 0 < rc.stuckMaxPerTick

theorem eligible_iff : rc.Eligible r t ↔ isStuckCandidate t = true ∧
      ¬ rc.Skips r.clock t (r.existsKey (lockKey t.idText)) r ∧ 0 < rc.stuckMaxPerTick := by
  unfold Skips
  simp only [not_or, Bool.not_eq_true]
  constructor
  · intro h
    exact ⟨h.candidate, ⟨h.named, h.unlocked, h.old, h.unmarked⟩, h.capacity⟩
  · rintro ⟨hc, ⟨hn, hu, hold, hun⟩, hca⟩
    exact ⟨hc, hn, hu, hold, hun, hca⟩

theorem eligible_of_mem_taken (h : t ∈ rc.taken batch r) : t ∈ batch ∧ rc.Eligible r t := by
  obtain ⟨hm, ht, hca⟩ := mem_select h
  obtain ⟨u, hu, heq⟩ := mem_map.mp hm
  obtain ⟨rfl, hun⟩ := Prod.mk.inj heq
  obtain ⟨hb, hc⟩ := mem_filter.mp hu
  exact ⟨hb, eligible_iff.mpr ⟨hc, by rwa [hun], hca⟩⟩

theorem taken_singleton (h : rc.Eligible r t) : rc.taken [t] r = [t] := by
  obtain ⟨hc, ht, hca⟩ := eligible_iff.mp h
  have hcap : ¬ rc.stuckMaxPerTick ≤ (0 : Nat) := by
    push_cast
    omega
  have hb : lockedBatch [t] r = [(t, r.existsKey (lockKey t.idText))] := by
    simp [lockedBatch, hc]
  unfold taken
  rw [hb, select, if_neg hcap, if_neg ht, select]

def repaired (rc : TaskReconciler) (batch : List TaskDoc) (w : World) : World :=
  rc.recovered (rc.requeueInfos (rc.taken batch w.redis)) (rc.failIds (rc.taken batch w.redis))
    (w.onRedis ((rc.taken batch w.redis).foldl marked))

theorem repaired_of_no_candidate (h : batch.filter isStuckCandidate = []) (w : World) : rc.repaired batch w = w := by
  unfold repaired taken lockedBatch
  rw [h]
  unfold recovered requeuedBy bumped
  cases rc.queueManager <;> simp [select, requeueInfos, failIds, requeued, failed, World.onRedis, World.runKeys]

theorem world_phase2 (rc : TaskReconciler) (batch : List TaskDoc) (w : World) :
    ((rc.phase2StuckRecovery batch).runWith Command.apply .ok w).2 = rc.repaired batch w := by
  rw [phase2_eq]
  split
  · rename_i h
    exact (repaired_of_no_candidate h w).symm
  · have hl : (checkLocks (batch.filter isStuckCandidate)).runWith Command.apply .ok w =
        (.ok (lockedBatch batch w.redis), w) := runWith_query w _
    have hs := rc.runWith_selectStuck w.redis.clock (lockedBatch batch w.redis) 0 [] [] w
    rw [runWith_bind_ok (runWith_time w), runWith_bind_ok hl, runWith_bind_ok hs, world_recover]
    rfl

section
variable (q : QueueManager) (nowMs : Int) (infos : List RequeueInfo) (r : Store)

theorem requeued_keeps {P : Store → Prop} (hp : ∀ c r, P r → P (q.probed c r))
    (he : ∀ info ∈ infos, ∀ score r, P r → P (q.enqueued info.capability info.taskId score r)) (h : P r) :
    P (requeued q nowMs infos r).2 := by
  induction infos generalizing r with
  | nil => exact h
  | cons info rest ih =>
    have hr := fun other ho => he other (mem_cons_of_mem _ ho)
    unfold requeued
    split
    · exact ih r hr h
    · split
      · exact ih _ hr (he info mem_cons_self _ r h)
      · exact hp _ r h

theorem strings_requeued {k : String} (hk : ∀ s, k ≠ breakerPrefix ++ s) :
    (requeued q nowMs infos r).2.strings k = r.strings k := by
  have hp (c : String) (r : Store) : (q.probed c r).strings k = r.strings k :=
    (q.edits_probed c r).strings (not_mem_breakerKeys hk c)
  refine requeued_keeps q nowMs infos r (P := fun r' => r'.strings k = r.strings k) ?_ ?_ rfl
  · exact fun c r' h => (hp c r').trans h
  · intro info _ score r' h
    rw [q.strings_enqueued, hp, h]

theorem zsets_requeued_running (c : String) :
    (requeued q nowMs infos r).2.zsets (QueueKeys.running c) = r.zsets (QueueKeys.running c) := by
  refine requeued_keeps q nowMs infos r
    (P := fun r' => r'.zsets (QueueKeys.running c) = r.zsets (QueueKeys.running c)) ?_ ?_ rfl
  · intro c' r' h
    rw [zsets_of_sorted (q.sorted_probed c' r'), h]
  · intro info _ score r' h
    rw [q.zsets_enqueued_of_ne _ _ _ _ (pending_ne_running _ c).symm, h]

variable {q}

theorem zscore_requeued_of_notMem (httl : 0 < q.ttl) (c : String) {x : String}
    (hx : x ∉ infos.map RequeueInfo.taskId) :
    (requeued q nowMs infos r).2.zscore (QueueKeys.pending c) x = r.zscore (QueueKeys.pending c) x := by
  refine requeued_keeps q nowMs infos r
    (P := fun r' => r'.zscore (QueueKeys.pending c) x = r.zscore (QueueKeys.pending c) x) ?_ ?_ rfl
  · intro c' r' h
    rw [← h, Redis.zscore, zsets_of_sorted (q.sorted_probed c' r')]
    rfl
  · intro info hi score r' h
    have hne : x ≠ info.taskId := fun heq => hx (heq ▸ mem_map_of_mem hi)
    rw [QueueManager.zscore_enqueued_of_ne _ _ httl _ _ _ hne, h]

end

section
variable (rc : TaskReconciler) (requeue : List RequeueInfo) (r : Store)

theorem strings_requeuedBy {k : String} (hk : ∀ s, k ≠ breakerPrefix ++ s) :
    (rc.requeuedBy requeue r).2.strings k = r.strings k := by
  unfold requeuedBy
  split
  · exact strings_requeued _ _ _ _ hk
  · rfl

theorem zsets_requeuedBy_running (c : String) :
    (rc.requeuedBy requeue r).2.zsets (QueueKeys.running c) = r.zsets (QueueKeys.running c) := by
  unfold requeuedBy
  split
  · exact zsets_requeued_running _ _ _ _ c
  · rfl

variable {rc requeue}

theorem zscore_requeuedBy_of_notMem (httl : ∀ q, rc.queueManager = some q → 0 < q.ttl) (c : String) {x : String}
    (hx : x ∉ requeue.map RequeueInfo.taskId) :
    (rc.requeuedBy requeue r).2.zscore (QueueKeys.pending c) x = r.zscore (QueueKeys.pending c) x := by
  unfold requeuedBy
  split
  · rename_i q hq
    exact zscore_requeued_of_notMem _ _ _ (httl q hq) c hx
  · rfl

end

theorem sorted_failed (fail : List String) (r : Store) : (failed fail r).sorted = r.sorted := sorted_runKeys _ _

def failedValue : Option Blob → Option Blob
  | some (.task t) => some (.task (markFailed t))
  | v => v

theorem get_runKeys_markFailed (doc : String → Option TaskDoc) (fail : List String) (r : Store) (x : String) :
    (World.runKeys r ((fail.map fun id => (id, doc id)).filterMap fun e =>
      e.2.map fun t => (taskKey e.1, KeyOp.set (.task (markFailed t)) none))).get (taskKey x) =
      if x ∈ fail then (doc x).elim (r.get (taskKey x)) fun t => some (.task (markFailed t))
      else r.get (taskKey x) := by
  induction fail generalizing r with
  | nil => rfl
  | cons id fail ih =>
    have hset (t : TaskDoc) : (r.set (taskKey id) (.task (markFailed t)) none).get (taskKey x) =
        if x = id then some (.task (markFailed t)) else r.get (taskKey x) := by
      unfold Redis.get
      rw [strings_set]
      by_cases hx : x = id <;> simp [hx]
    rw [map_cons, filterMap_cons]
    cases hd : doc id with
    | none =>
      dsimp only [Option.map_none]
      rw [ih]
      by_cases hx : x = id
      · subst hx
        simp [hd]
      · simp [hx]
    | some t =>
      dsimp only [Option.map_some]
      change (World.runKeys (r.set (taskKey id) (.task (markFailed t)) none) _).get (taskKey x) = _
      rw [ih, hset]
      by_cases hx : x = id
      · subst hx
        simp [hd]
      · simp [hx]

theorem get_failed (fail : List String) (r : Store) (x : String) : (failed fail r).get (taskKey x) =
      if x ∈ fail then failedValue (r.get (taskKey x)) else r.get (taskKey x) := by
  unfold failed
  rw [get_runKeys_markFailed]
  refine if_congr Iff.rfl ?_ rfl
  cases r.get (taskKey x) with
  | none => rfl
  | some v => cases v <;> rfl

section
variable (rc : TaskReconciler) (batch : List TaskDoc) (w : World)
variable {x : String}

def AllAdmitted : Prop :=
  (rc.requeuedBy (rc.requeueInfos (rc.taken batch w.redis)) ((rc.taken batch w.redis).foldl marked w.redis)).1 = true

instance : Decidable (AllAdmitted rc batch w) := inferInstanceAs (Decidable (_ = true))

theorem edits_taken : Edits ((rc.taken batch w.redis).map fun t => requeueDedupKey t.idText) w.redis
    ((rc.taken batch w.redis).foldl marked w.redis) :=
  edits_marked .refl fun _ ht => mem_map_of_mem ht

theorem clock_marked : ((rc.taken batch w.redis).foldl marked w.redis).clock = w.redis.clock :=
  clock_of_sorted (edits_taken rc batch w).sorted

theorem redis_bumped (requeue : List RequeueInfo) : (rc.bumped requeue w).redis = w.redis := by
  unfold bumped
  split
  · exact redis_commit w _
  · rfl

def requeuedStore : Store :=
  (rc.requeuedBy (rc.requeueInfos (rc.taken batch w.redis)) ((rc.taken batch w.redis).foldl marked w.redis)).2

theorem redis_repaired : (rc.repaired batch w).redis =
      if AllAdmitted rc batch w then failed (rc.failIds (rc.taken batch w.redis)) (requeuedStore rc batch w)
      else requeuedStore rc batch w := by
  unfold repaired recovered World.onRedis
  rw [redis_bumped]
  rfl

theorem sorted_repaired : (rc.repaired batch w).redis.sorted = (requeuedStore rc batch w).sorted := by
  rw [redis_repaired]
  split
  · exact sorted_failed _ _
  · rfl

theorem get_requeuedStore (x : String) : (requeuedStore rc batch w).get (taskKey x) = w.redis.get (taskKey x) := by
  have hb : ∀ s, taskKey x ≠ breakerPrefix ++ s := append_ne 0 (by decide) (by decide) (by decide) x
  unfold requeuedStore Redis.get
  rw [strings_requeuedBy _ _ _ hb, (edits_taken rc batch w).strings]
  intro hm
  obtain ⟨t, _, hk⟩ := mem_map.mp hm
  exact taskKey_ne_dedupKey x _ hk.symm

theorem get_repaired (x : String) : (rc.repaired batch w).redis.get (taskKey x) =
      if AllAdmitted rc batch w ∧ x ∈ rc.failIds (rc.taken batch w.redis) then
        failedValue (w.redis.get (taskKey x))
      else w.redis.get (taskKey x) := by
  rw [redis_repaired]
  by_cases ha : AllAdmitted rc batch w
  · rw [if_pos ha, get_failed, get_requeuedStore]
    simp [ha]
  · rw [if_neg ha, get_requeuedStore]
    simp [ha]

theorem running_repaired (c : String) : (rc.repaired batch w).running c = w.running c := by
  unfold World.running
  rw [zsets_of_sorted (sorted_repaired rc batch w), requeuedStore, zsets_requeuedBy_running,
    zsets_of_sorted (edits_taken rc batch w).sorted]

variable {rc batch w}

theorem mem_requeueIds_iff : x ∈ (rc.requeueInfos (rc.taken batch w.redis)).map RequeueInfo.taskId ↔
      ∃ t ∈ rc.taken batch w.redis, rc.Requeues t ∧ t.idText = x := by
  simp [requeueInfos, requeueInfo, and_assoc]

theorem mem_failIds_iff :
    x ∈ rc.failIds (rc.taken batch w.redis) ↔ ∃ t ∈ rc.taken batch w.redis, ¬ rc.Requeues t ∧ t.idText = x := by
  simp [failIds, and_assoc]

theorem zscore_repaired_of_notMem (httl : ∀ q, rc.queueManager = some q → 0 < q.ttl) (c : String)
    (hx : ∀ t ∈ rc.taken batch w.redis, t.idText ≠ x) :
    (rc.repaired batch w).redis.zscore (QueueKeys.pending c) x = w.redis.zscore (QueueKeys.pending c) x := by
  have hi : x ∉ (rc.requeueInfos (rc.taken batch w.redis)).map RequeueInfo.taskId := by
    rw [mem_requeueIds_iff]
    rintro ⟨t, ht, _, hn⟩
    exact hx t ht hn
  unfold Redis.zscore
  rw [zsets_of_sorted (sorted_repaired rc batch w)]
  refine (zscore_requeuedBy_of_notMem _ httl c hi).trans ?_
  unfold Redis.zscore
  rw [zsets_of_sorted (edits_taken rc batch w).sorted]

theorem find_bumped (requeue : List RequeueInfo) (x : String) : (rc.bumped requeue w).db.tasks.find x =
      if rc.hasDb = true ∧ x ∈ requeue.map RequeueInfo.taskId then
        (w.db.tasks.find x).map (·.retried w.redis.clock)
      else w.db.tasks.find x := by
  have hu : (w.exec (.commit [.bumpAttempts (requeue.map RequeueInfo.taskId)])).db.tasks.find x =
      (w.db.tasks.find x).map fun row => if row.taskId ∈ requeue.map RequeueInfo.taskId then
        row.retried w.redis.clock else row := by
    have hf := w.db.find_updateWhere (decide <| ·.taskId ∈ requeue.map RequeueInfo.taskId)
      (·.retried w.redis.clock) (fun _ => rfl) x
    simp only [decide_eq_true_eq] at hf
    exact hf
  have hn (row : TaskRecord) (hr : w.db.tasks.find x = some row) : row.taskId = x :=
    ((Table.find_eq_some_iff _ _ _).mp hr).2
  unfold bumped
  by_cases hx : rc.hasDb = true ∧ x ∈ requeue.map RequeueInfo.taskId
  · have hne : requeue ≠ [] := by
      rintro rfl
      cases hx.2
    rw [if_pos ⟨hx.1, hne⟩, if_pos hx, hu]
    refine Option.map_congr fun row hr => ?_
    rw [if_pos (by rw [hn row hr]; exact hx.2)]
  · rw [if_neg hx]
    by_cases hb : rc.hasDb = true ∧ requeue ≠ []
    · rw [if_pos hb, hu]
      refine (Option.map_congr fun row hr => ?_).trans Option.map_id'
      rw [if_neg (by rw [hn row hr]; exact fun h => hx ⟨hb.1, h⟩)]
    · rw [if_neg hb]

theorem find_repaired (x : String) : (rc.repaired batch w).db.tasks.find x =
      if rc.hasDb = true ∧ ∃ t ∈ rc.taken batch w.redis, rc.Requeues t ∧ t.idText = x then
        (w.db.tasks.find x).map (·.retried w.redis.clock)
      else w.db.tasks.find x := by
  have hc : (w.onRedis ((rc.taken batch w.redis).foldl marked)).redis.clock = w.redis.clock :=
    clock_marked rc batch w
  simp only [← mem_requeueIds_iff]
  refine (find_bumped (rc.requeueInfos (rc.taken batch w.redis)) x).trans ?_
  rw [hc]
  rfl

end

end TaskReconciler

end AsyncScheduler
