import AsyncScheduler.Platform.StoreEffects
import AsyncScheduler.Platform.TaskReconciler
import AsyncScheduler.Services.Tracking

/-!
# What a tick may touch

A tick caches a row only when it found no document for it, restores a queue entry only when it found
none, and requeues or fails a task only when it found the task stuck.
-/

namespace AsyncScheduler
open List

section

namespace TaskReconciler

/-- Everything phase 2 has seen of a task when it takes it on, in states that satisfy `I`. -/
structure Stuck (rc : TaskReconciler) (I : World → Prop) (t : TaskDoc) : Prop where
  candidate : isStuckCandidate t = true
  named : t.idText ≠ ""
  old : ∃ w, I w ∧ rc.tooYoung w.redis.clock t = false
  unlocked : ∃ w, I w ∧ w.redis.existsKey (lockKey t.idText) = false
  unmarked : ∃ w, I w ∧ w.redis.existsKey (requeueDedupKey t.idText) = false

/-- A stuck task is put back into its queue; otherwise it is marked as failed. -/
def Requeues (rc : TaskReconciler) (t : TaskDoc) : Prop :=
  rc.queueManager.isSome = true ∧ t.attempt.getD 0 < t.maxRetries.getD 0

instance (rc : TaskReconciler) (t : TaskDoc) : Decidable (rc.Requeues t) :=
  inferInstanceAs (Decidable (rc.queueManager.isSome = true ∧ t.attempt.getD 0 < t.maxRetries.getD 0))

def recover (rc : TaskReconciler) (requeue : List RequeueInfo) (fail : List String) : Py Unit := do
  rc.bumpAttempts requeue
  let t ← time
  match rc.queueManager with
  | some q => Prog.forEach (requeueOne q (toMs t)) requeue
  | none => pure ()
  failTasks fail

def checkLocks (candidates : List TaskDoc) : Py (List (TaskDoc × Bool)) :=
  query fun w => candidates.map fun t => (t, w.redis.existsKey (lockKey t.idText))

theorem phase2_eq (rc : TaskReconciler) (batch : List TaskDoc) :
    rc.phase2StuckRecovery batch =
      if batch.filter isStuckCandidate = [] then .ret ()
      else time.bind fun now => (checkLocks (batch.filter isStuckCandidate)).bind fun locked =>
        (rc.selectStuck now locked 0 [] []).bind fun decision =>
          rc.recover decision.1 decision.2 := rfl

end TaskReconciler

open TaskReconciler

/-- The commands of the repair that follows a selection. -/
structure RecoverScope (rc : TaskReconciler) (I : World → Prop) (C : Command → Prop)
    (D : TaskDoc → Prop) : Prop extends Ambient C where
  docs : ∀ w, I w → w.Docs D
  bump : ∀ ids, (∀ id ∈ ids, ∃ t, D t ∧ rc.Stuck I t ∧ rc.Requeues t ∧ t.idText = id) →
    C (.commit [.bumpAttempts ids])
  requeue : ∀ q t sc, rc.queueManager = some q → D t → rc.Stuck I t → rc.Requeues t →
    C (.queue (.enqueue (requeueInfo t).capability t.idText sc q.defaultDepth q.ttl))
  fail : ∀ ops, (∀ op ∈ ops, ∃ t d, D t ∧ rc.Stuck I t ∧ ¬ rc.Requeues t ∧ D d ∧
    op = (taskKey t.idText, KeyOp.set (.task (markFailed d)) none)) → C (.keys ops)

/-- The commands of phase 1 and phase 3. -/
structure SideScope (C : Command → Prop) : Prop where
  read : C .read
  repair : ∀ ts : List TaskDoc, C (.commit (ts.map fun t => .insertTask (phase1Record t)))
  transaction : ∀ (id : String) (op : KeyOp), op.doc = none → C (.keys [(txKey id, op)])
  callback : ∀ id score event,
    C (.callbackRetry id score [(retryPayloadKey id, .set (.retry event) (some 3600))])

structure TickScope (rc : TaskReconciler) (I : World → Prop) (C : Command → Prop)
    (R : TaskRecord → Prop) (D : TaskDoc → Prop) : Prop extends RecoverScope rc I C D, SideScope C where
  rows : ∀ w, I w → ∀ row ∈ w.db.tasks.rows, R row
  leader : ∀ op : KeyOp, op.doc = none → C (.keys [(reconcileLeaderKey, op)])
  cache : ∀ w row, I w → R row → row.taskId ≠ "" → Blob.truthy (w.redis.get (taskKey row.taskId)) = false →
    C (.keys [(taskKey row.taskId, .set (.task row.payload) (some 86400))])
  restore : ∀ w₁ w₂ w₃ row, I w₁ → I w₂ → I w₃ → R row → row.taskId ≠ "" → row.taskType ≠ "" →
    row.status = .queued ∨ row.status = .scheduled →
    w₁.redis.zscore (QueueKeys.pending row.taskType) row.taskId = none →
    w₂.redis.zscore (QueueKeys.running row.taskType) row.taskId = none →
    C (.queue (.restore row.taskType row.taskId w₃.redis.clock))
  dedup : ∀ t, D t → isStuckCandidate t = true → C (.keys [(requeueDedupKey t.idText, .setNx (.text "1") 300)])

namespace TaskReconciler
variable {rc : TaskReconciler} {I : World → Prop} {C : Command → Prop} {R : TaskRecord → Prop}
  {D : TaskDoc → Prop}

theorem issues_clock (hr : C .read) : Issues I C (fun t => ∃ w, I w ∧ w.redis.clock = t) time :=
  issues_immediately hr fun w hw => ⟨w, hw, rfl⟩

theorem doc_of_get {w : World} {k : String} {t : TaskDoc} (hd : w.Docs D)
    (h : (w.redis.get k).bind Blob.taskDoc = some t) : D t := by
  obtain ⟨b, hb, hdo⟩ := Option.bind_eq_some_iff.mp h
  cases b with
  | task doc =>
    cases hdo
    exact hd _ _ hb
  | _ => cases hdo

/-- What is known of the tasks that a selection hands to the repair. -/
structure Selected (rc : TaskReconciler) (I : World → Prop) (D : TaskDoc → Prop)
    (decision : List RequeueInfo × List String) : Prop where
  requeue : ∀ info ∈ decision.1, ∃ t, D t ∧ rc.Stuck I t ∧ rc.Requeues t ∧ info = requeueInfo t
  fail : ∀ id ∈ decision.2, ∃ t, D t ∧ rc.Stuck I t ∧ ¬ rc.Requeues t ∧ t.idText = id

section Recover
variable (h : RecoverScope rc I C D)
include h

theorem issues_bumpAttempts {requeue : List RequeueInfo} {fail : List String}
    (hs : Selected rc I D (requeue, fail)) : Issues I C (fun _ => True) (rc.bumpAttempts requeue) := by
  unfold bumpAttempts
  split
  · refine issues_exceptException (issues_session h.read ?_) fun _ => trivial
    refine (issues_query (Q := fun _ => True) h.read fun _ _ => trivial).bind fun _ _ => ?_
    refine issues_commit (h.bump _ fun id hid => ?_)
    obtain ⟨info, hi, rfl⟩ := mem_map.mp hid
    obtain ⟨t, ht, hst, hr, rfl⟩ := hs.requeue info hi
    exact ⟨t, ht, hst, hr, rfl⟩
  · trivial

theorem issues_requeueOne {q : QueueManager} (hq : rc.queueManager = some q) (nowMs : Int) {t : TaskDoc} (ht : D t)
    (hs : rc.Stuck I t) (hr : rc.Requeues t) :
    Issues I C (fun _ => True) (requeueOne q nowMs (requeueInfo t)) := by
  unfold requeueOne
  split
  · trivial
  · exact (q.issues_enqueue h.toAmbient _ _ fun sc => h.requeue q t sc hq ht hs hr).void

theorem issues_failTasks {requeue : List RequeueInfo} {fail : List String}
    (hs : Selected rc I D (requeue, fail)) : Issues I C (fun _ => True) (failTasks fail) := by
  unfold failTasks
  split
  · trivial
  · refine (issues_query (Q := fun raws : List (String × Option TaskDoc) =>
      ∀ e ∈ raws, e.1 ∈ fail ∧ ∀ d, e.2 = some d → D d) h.read ?_).bind fun raws hr => ?_
    · rintro w hw e he
      obtain ⟨id, hid, rfl⟩ := mem_map.mp he
      exact ⟨hid, fun d hd => doc_of_get (h.docs w hw) hd⟩
    · refine issues_perform (h.fail _ fun op hop => ?_)
      obtain ⟨⟨id, raw⟩, he, hra⟩ := mem_filterMap.mp hop
      obtain ⟨d, rfl, rfl⟩ := Option.map_eq_some_iff.mp hra
      obtain ⟨hid, hd⟩ := hr _ he
      obtain ⟨t, ht, hst, hf, hn⟩ := hs.fail id hid
      exact ⟨t, d, ht, hst, hf, hd d rfl, by rw [hn]⟩

theorem issues_recover {decision : List RequeueInfo × List String} (hs : Selected rc I D decision) :
    Issues I C (fun _ => True) (rc.recover decision.1 decision.2) := by
  refine (issues_bumpAttempts h hs).bind fun _ _ => ?_
  refine (QueueManager.issues_time h.toAmbient).bind fun t _ => ?_
  split
  · rename_i q hq
    refine Issues.bind (Issues.forEach fun info hi => ?_) fun _ _ => issues_failTasks h hs
    obtain ⟨t, ht, hst, hr, rfl⟩ := hs.requeue info hi
    exact issues_requeueOne h hq _ ht hst hr
  · exact issues_failTasks h hs

end Recover

section Side
variable (h : SideScope C)
include h

theorem issues_phase1DoubleWrite (batch : List TaskDoc) :
    Issues I C (fun _ => True) (rc.phase1DoubleWrite batch) := by
  unfold phase1DoubleWrite
  dsimp only
  split
  · refine issues_exceptException (issues_session h.read ?_) fun _ => trivial
    refine (issues_query (Q := fun _ => True) h.read fun _ _ => trivial).bind fun persisted _ => ?_
    split
    · trivial
    · split
      · trivial
      · refine (issues_commit (h.repair _)).bind fun _ _ => ?_
        split
        · refine Issues.forEach fun t _ => ?_
          refine (issues_clock h.read).bind fun now _ => ?_
          exact issues_exceptException (CompensationService.issues_saveTransaction _ (h.transaction _ _ rfl)
            (h.transaction _ _ rfl)) fun _ => trivial
        · trivial
  · trivial

theorem issues_phase3LostCallback (batch : List TaskDoc) : Issues I C (fun _ => True) (phase3LostCallback batch) := by
  unfold phase3LostCallback
  dsimp only
  split
  · trivial
  · refine (issues_query (Q := fun _ => True) h.read fun _ _ => trivial).bind fun done _ => ?_
    refine Issues.forEach fun t _ => ?_
    refine (issues_query (Q := fun _ => True) h.read fun _ _ => trivial).bind fun queued _ => ?_
    split
    · trivial
    · refine (issues_clock h.read).bind fun now _ => ?_
      exact issues_perform (h.callback _ _ _)

end Side

section Tick
variable (h : TickScope rc I C R D)
include h

theorem issues_tryBecomeLeader : Issues I C (fun _ => True) rc.tryBecomeLeader := by
  unfold tryBecomeLeader
  refine Issues.bind (Q := fun _ => True) (issues_await (h.leader _ ?_) fun _ _ _ _ => trivial)
    fun ok _ => ?_
  · rfl
  split
  · trivial
  · exact issues_await (h.leader _ rfl) fun _ _ _ _ => trivial

theorem issues_rebuildCache {row : TaskRecord} (hr : R row) (hid : row.taskId ≠ "") :
    Issues I C (fun _ => True) (rebuildCache row) := by
  refine (issues_query (Q := fun existing => ∃ w, I w ∧ w.redis.get (taskKey row.taskId) = existing) h.read
    fun w hw => ⟨w, hw, rfl⟩).bind ?_
  rintro existing ⟨w, hw, rfl⟩
  split
  · trivial
  · rename_i hm
    exact issues_perform (h.cache w row hw hr hid (by simpa using hm))

theorem issues_rebuildIndex {row : TaskRecord} (hro : R row) (hid : row.taskId ≠ "") :
    Issues I C (fun _ => True) (rebuildIndex row) := by
  unfold rebuildIndex
  split
  · rename_i hwa
    refine (issues_query (Q := fun score => ∃ w, I w ∧
      w.redis.zscore (QueueKeys.pending row.taskType) row.taskId = score) h.read
      fun w hw => ⟨w, hw, rfl⟩).bind ?_
    rintro inPending ⟨w₁, hw₁, hp⟩
    refine (issues_query (Q := fun score => ∃ w, I w ∧
      w.redis.zscore (QueueKeys.running row.taskType) row.taskId = score) h.read
      fun w hw => ⟨w, hw, rfl⟩).bind ?_
    rintro inRunning ⟨w₂, hw₂, hr⟩
    split
    · rename_i ha
      refine (issues_clock h.read).bind ?_
      rintro t ⟨w₃, hw₃, rfl⟩
      exact issues_perform (h.restore w₁ w₂ w₃ row hw₁ hw₂ hw₃ hro hid hwa.1 hwa.2
        (hp.trans ha.1) (hr.trans ha.2))
    · trivial
  · trivial

theorem issues_rebuildRedisFromMysql : Issues I C (fun _ => True) rc.rebuildRedisFromMysql := by
  unfold rebuildRedisFromMysql
  split
  · refine issues_exceptException (issues_session h.read ?_) fun _ => trivial
    refine (issues_query (Q := fun rows => ∀ row ∈ rows, R row) h.read h.rows).bind fun rows hr => ?_
    refine Issues.forEach fun row hro => ?_
    unfold rebuildRow
    split
    · trivial
    · rename_i hid
      exact (issues_rebuildCache h (hr row hro) hid).bind fun _ _ =>
        issues_rebuildIndex h (hr row hro) hid
  · trivial

theorem issues_scanTaskBatch (scanned : List String) :
    Issues I C (fun batch => ∀ t ∈ batch, D t) (scanTaskBatch scanned) := by
  refine Issues.bind (Q := fun _ => True) ?_ fun keys _ => ?_
  · exact issues_exceptException (issues_query h.read fun _ _ => trivial) fun _ => trivial
  · split
    · exact fun t ht => absurd ht not_mem_nil
    · refine issues_query h.read fun w hw t ht => ?_
      obtain ⟨id, _, hid⟩ := mem_filterMap.mp ht
      exact doc_of_get (h.docs w hw) hid

theorem issues_selectStuck {now : ℚ} (hno : ∃ w, I w ∧ w.redis.clock = now)
    {locked : List (TaskDoc × Bool)} (stuckCount : Nat) {requeue : List RequeueInfo} {fail : List String}
    (hl : ∀ e ∈ locked, D e.1 ∧ isStuckCandidate e.1 = true ∧
      ∃ w, I w ∧ w.redis.existsKey (lockKey e.1.idText) = e.2) (hs : Selected rc I D (requeue, fail)) :
    Issues I C (Selected rc I D) (rc.selectStuck now locked stuckCount requeue fail) := by
  induction locked generalizing stuckCount requeue fail with
  | nil => exact hs
  | cons e rest ih =>
    obtain ⟨t, lockExists⟩ := e
    obtain ⟨ht, hc, wLock, hwL, hlo⟩ := hl _ mem_cons_self
    have hr := fun e' he' => hl e' (mem_cons_of_mem _ he')
    unfold selectStuck
    split
    · exact hs
    · split
      · exact ih stuckCount hr hs
      · rename_i hse
        simp only [not_or, Bool.not_eq_true] at hse
        obtain ⟨hn, hu, hy⟩ := hse
        refine (issues_await (Q := fun fresh => ∃ w, I w ∧
          (!w.redis.existsKey (requeueDedupKey t.idText)) = fresh) (h.dedup t ht hc)
          fun w a hw ha => ⟨w, hw, Except.ok.inj ha⟩).bind ?_
        rintro fresh ⟨wMark, hwM, hm⟩
        split
        · exact ih stuckCount hr hs
        · rename_i hfr
          have hst : rc.Stuck I t :=
            { candidate := hc
              named := hn
              old := by
                obtain ⟨w, hw, rfl⟩ := hno
                exact ⟨w, hw, hy⟩
              unlocked := ⟨wLock, hwL, hlo.trans hu⟩
              unmarked := ⟨wMark, hwM, by simpa [← hm] using hfr⟩ }
          split
          · rename_i hre
            refine ih _ hr ⟨fun info hi => ?_, hs.fail⟩
            rcases mem_append.mp hi with hi | hi
            · exact hs.requeue info hi
            · exact ⟨t, ht, hst, hre, mem_singleton.mp hi⟩
          · rename_i hf
            refine ih _ hr ⟨hs.requeue, fun id hid => ?_⟩
            rcases mem_append.mp hid with hid | hid
            · exact hs.fail id hid
            · exact ⟨t, ht, hst, hf, (mem_singleton.mp hid).symm⟩

theorem issues_phase2StuckRecovery {batch : List TaskDoc} (hb : ∀ t ∈ batch, D t) :
    Issues I C (fun _ => True) (rc.phase2StuckRecovery batch) := by
  rw [phase2_eq]
  split
  · trivial
  · refine (issues_clock h.read).bind fun now hno => ?_
    refine (issues_query (Q := fun locked : List (TaskDoc × Bool) => ∀ e ∈ locked,
      D e.1 ∧ isStuckCandidate e.1 = true ∧ ∃ w, I w ∧ w.redis.existsKey (lockKey e.1.idText) = e.2)
      h.read ?_).bind fun locked hl => ?_
    · intro w hw e he
      obtain ⟨t, ht, rfl⟩ := mem_map.mp he
      obtain ⟨htb, hc⟩ := mem_filter.mp ht
      exact ⟨hb t htb, hc, w, hw, rfl⟩
    · have hn : Selected rc I D ([], []) :=
        ⟨fun _ hi => absurd hi not_mem_nil, fun _ hi => absurd hi not_mem_nil⟩
      exact (issues_selectStuck h hno 0 hl hn).bind fun decision hd =>
        issues_recover h.toRecoverScope hd

theorem issues_tick_of_scope (scanned : List String) (schedule : List Nat) :
    Issues I C (fun _ => True) (rc.tick scanned schedule) := by
  refine (issues_tryBecomeLeader h).bind fun leader _ => ?_
  split
  · refine (issues_rebuildRedisFromMysql h).bind fun _ _ => ?_
    refine (issues_scanTaskBatch h scanned).bind fun batch hb => ?_
    split
    · trivial
    · refine Issues.void (Issues.gather (Q := fun _ => True) ?_)
      intro p hp
      simp only [mem_cons, not_mem_nil, or_false] at hp
      rcases hp with rfl | rfl | rfl
      · exact issues_phase1DoubleWrite h.toSideScope batch
      · exact issues_phase2StuckRecovery h hb
      · exact issues_phase3LostCallback h.toSideScope batch
  · trivial

end Tick

end TaskReconciler

end

variable {I : World → Prop} {C : Command → Prop} {R : TaskRecord → Prop} {D : TaskDoc → Prop}

/-- The commands a tick needs when every row it reads satisfies `R` and every document `D`. -/
structure TickAllowed (I : World → Prop) (C : Command → Prop) (R : TaskRecord → Prop)
    (D : TaskDoc → Prop) : Prop extends Ambient C where
  rows : ∀ w, I w → ∀ row ∈ w.db.tasks.rows, R row
  docs : ∀ w, I w → w.Docs D
  leader : ∀ op : KeyOp, op.doc = none → C (.keys [(reconcileLeaderKey, op)])
  cache : ∀ row, R row → C (.keys [(taskKey row.taskId, .set (.task row.payload) (some 86400))])
  restore : ∀ row t, R row → row.status = .queued ∨ row.status = .scheduled →
    C (.queue (.restore row.taskType row.taskId t))
  repair : ∀ ts : List TaskDoc, C (.commit (ts.map fun t => .insertTask (TaskReconciler.phase1Record t)))
  transaction : ∀ (id : String) (op : KeyOp), op.doc = none → C (.keys [(txKey id, op)])
  dedup : ∀ id, C (.keys [(requeueDedupKey id, .setNx (.text "1") 300)])
  bump : ∀ ids, C (.commit [.bumpAttempts ids])
  requeue : ∀ t c sc depth ttl, D t → TaskReconciler.isStuckCandidate t →
    C (.queue (.enqueue c t.idText sc depth ttl))
  fail : ∀ ops, (∀ op ∈ ops, ∃ id t, D t ∧
    op = (taskKey id, KeyOp.set (.task (TaskReconciler.markFailed t)) none)) → C (.keys ops)
  callback : ∀ id score event,
    C (.callbackRetry id score [(retryPayloadKey id, .set (.retry event) (some 3600))])

theorem TickAllowed.scope (h : TickAllowed I C R D) (rc : TaskReconciler) : TickScope rc I C R D where
  toAmbient := h.toAmbient
  docs := h.docs
  bump ids _ := h.bump ids
  requeue q t sc _ ht hs _ := h.requeue t _ sc q.defaultDepth q.ttl ht hs.candidate
  fail ops ho := h.fail ops fun op hop => by
    obtain ⟨t, d, _, _, _, hd, rfl⟩ := ho op hop
    exact ⟨t.idText, d, hd, rfl⟩
  rows := h.rows
  leader := h.leader
  cache _ row _ hr _ _ := h.cache row hr
  restore _ _ _ row _ _ _ hr _ _ hw _ _ := h.restore row _ hr hw
  repair := h.repair
  transaction := h.transaction
  dedup t _ _ := h.dedup t.idText
  callback := h.callback

theorem TaskReconciler.issues_tick (h : TickAllowed I C R D) (rc : TaskReconciler) (scanned : List String)
    (schedule : List Nat) : Issues I C (fun _ => True) (rc.tick scanned schedule) :=
  issues_tick_of_scope (h.scope rc) scanned schedule

end AsyncScheduler
