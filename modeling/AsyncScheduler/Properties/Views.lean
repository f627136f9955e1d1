import AsyncScheduler.Platform.StuckRun
import AsyncScheduler.Services.Compensation
import AsyncScheduler.Services.TaskApplication
import AsyncScheduler.Platform.TaskCreator

/-!
# Four views of one row

A row is shown by the query endpoint, and cached by the creator, by the rebuild and by the
compensation service.
-/

namespace AsyncScheduler

/-- The fields compared; one that a view does not have is `none`. The URL is itself optional. -/
structure TaskView where
  status : Option String
  priority : Option String
  priorityRank : Option Int
  maxRetries : Option Int
  attempt : Option Int
  callbackUrl : Option (Option String)
  createdAt : Option ℚ

def AgreeOn {α : Type} (a b : Option α) : Prop := ∀ x ∈ a, ∀ y ∈ b, x = y

@[mk_iff]
structure TaskView.Agrees (v v' : TaskView) : Prop where
  status : AgreeOn v.status v'.status
  priority : AgreeOn v.priority v'.priority
  priorityRank : AgreeOn v.priorityRank v'.priorityRank
  maxRetries : AgreeOn v.maxRetries v'.maxRetries
  attempt : AgreeOn v.attempt v'.attempt
  callbackUrl : AgreeOn v.callbackUrl v'.callbackUrl
  createdAt : AgreeOn v.createdAt v'.createdAt

/-- A document as a view; `None` under the URL is not told apart from no URL, so that is given. -/
def TaskDoc.view (t : TaskDoc) (hasCallbackUrl : Bool) : TaskView where
  status := t.status
  priority := t.priority
  priorityRank := t.priorityRank
  maxRetries := t.maxRetries
  attempt := t.attempt
  callbackUrl := if hasCallbackUrl then some t.callbackUrl else none
  createdAt := t.createdAtTs.or t.createdAt

def TaskInfo.view (t : TaskInfo) : TaskView where
  status := some t.status.value
  priority := some t.priority.value
  priorityRank := none
  maxRetries := some t.maxRetries
  attempt := some t.attempt
  callbackUrl := some t.callbackUrl
  createdAt := some t.createdAt

namespace TaskRecord
variable (row : TaskRecord)

def view : TaskView where
  status := some row.status.value
  priority := some row.priority.value
  priorityRank := some row.priority.weight
  maxRetries := some row.maxRetries
  attempt := some row.attempt
  callbackUrl := some row.callbackUrl
  createdAt := some row.createdAt

def kwargs : TaskKwargs where
  taskType := some row.taskType
  priority := some row.priority.value
  inputData := row.inputData
  metadata := row.metadataJson
  callbackUrl := row.callbackUrl
  timeoutSeconds := some row.timeoutSeconds
  maxRetries := some row.maxRetries
  cronExpr := row.cronExpr
  persistToDb := some true
  scheduledAt := row.scheduledAt

/-- The document `create_task` caches for the row; its status follows the row. -/
def created : TaskDoc :=
  { row.kwargs.taskDoc row.taskId row.tenantId row.createdAt with status := some row.status.value }

def rebuiltView : TaskView := row.payload.view true

def compensationView : TaskView := (CompensationService.taskData row).view false

def createdView : TaskView := row.created.view true

end TaskRecord

namespace TaskReconciler
open QueueKeys

variable {rc : TaskReconciler} {t : TaskDoc} {w : World}

def phase2Decision (rc : TaskReconciler) (t : TaskDoc) (w : World) : Except PyErr (List RequeueInfo × List String) :=
  let locked := ([t].filter isStuckCandidate).map fun t => (t, w.redis.existsKey (lockKey t.idText))
  ((rc.selectStuck w.redis.clock locked 0 [] []).runWith Command.apply .ok w).1

/-- What phase 3 decides on one document: whose callback to send again, and where to. -/
def phase3Decision (t : TaskDoc) (w : World) : List (String × String) :=
  let unsent := ([t].filter wantsCallback).filter fun t => !w.redis.existsKey (callbackDone t.idText)
  (unsent.filter fun t => (w.redis.zscore callbackRetry t.idText).isNone).map fun t =>
    (t.idText, t.callbackUrl.getD "")

def SameDecisions (rc : TaskReconciler) (t t' : TaskDoc) : Prop :=
  ∀ w, rc.phase2Decision t w = rc.phase2Decision t' w ∧ phase3Decision t w = phase3Decision t' w

/-- All views agree with the row and with the creator's document, and the cached ones are treated like it. -/
structure ViewsAgree (rc : TaskReconciler) (row : TaskRecord) : Prop where
  fields : ∀ v ∈ [row.rebuiltView, row.compensationView, (toTaskInfo row).view],
    v.Agrees row.view ∧ v.Agrees row.createdView
  decisions : ∀ t ∈ [row.payload, CompensationService.taskData row], rc.SameDecisions t row.created

def Takes (rc : TaskReconciler) (t : TaskDoc) (w : World) : Prop :=
  isStuckCandidate t = true ∧ 0 < rc.stuckMaxPerTick ∧
    ¬ rc.Skips w.redis.clock t (w.redis.existsKey (lockKey t.idText)) w.redis

theorem phase2Decision_of_takes (h : rc.Takes t w) :
    rc.phase2Decision t w =
      .ok (if rc.Requeues t then ([requeueInfo t], []) else ([], [t.idText])) := by
  obtain ⟨hc, hl, ht⟩ := h
  unfold phase2Decision
  dsimp only
  rw [runWith_selectStuck, List.filter_singleton, hc]
  by_cases hr : rc.Requeues t <;>
    simp [select, ht, requeueInfos, failIds, hr, not_le.mpr hl]

theorem phase2Decision_of_not_takes (h : ¬ rc.Takes t w) : rc.phase2Decision t w = .ok ([], []) := by
  unfold phase2Decision
  dsimp only
  rw [runWith_selectStuck, List.filter_singleton]
  by_cases hc : isStuckCandidate t = true
  · by_cases hl : 0 < rc.stuckMaxPerTick
    · have hs : rc.Skips w.redis.clock t (w.redis.existsKey (lockKey t.idText)) w.redis := by
        by_contra hs
        exact h ⟨hc, hl, hs⟩
      simp [hc, select, hs, requeueInfos, failIds]
    · simp [hc, select, not_lt.mp hl, requeueInfos, failIds]
  · simp [hc, select, requeueInfos, failIds]

end TaskReconciler

section Fields
variable {α : Type} {a b : α} {o : Option α}

@[simp] theorem agreeOn_some_some : AgreeOn (some a) (some b) ↔ a = b := by simp [AgreeOn]

@[simp] theorem agreeOn_none_left : AgreeOn none o := by simp [AgreeOn]

@[simp] theorem agreeOn_none_right : AgreeOn o none := by simp [AgreeOn]

end Fields

namespace TaskRecord
variable (row : TaskRecord)

theorem priorityNumber_kwargs : row.kwargs.priorityNumber = row.priority.weight := by
  have hn (p : TaskPriority) : ({ priority := some p.value } : TaskKwargs).priorityNumber = p.weight := by
    cases p <;> decide
  exact hn row.priority

theorem createdView_eq : row.createdView = { row.view with attempt := none } := by
  unfold createdView created TaskDoc.view TaskKwargs.taskDoc
  rw [priorityNumber_kwargs]
  rfl

theorem agrees_both_iff (v : TaskView) : (v.Agrees row.view ∧ v.Agrees row.createdView) ↔ v.Agrees row.view := by
  refine ⟨And.left, fun h => ⟨h, ?_⟩⟩
  rw [createdView_eq]
  exact { h with attempt := agreeOn_none_right }

theorem rebuiltView_agrees_iff : row.rebuiltView.Agrees row.view ↔ row.maxRetries ≠ 0 ∧ row.callbackUrl ≠ none := by
  have hretries : (if row.maxRetries = 0 then 3 else row.maxRetries) = row.maxRetries ↔ row.maxRetries ≠ 0 := by
    split <;> omega
  have hu : some (row.callbackUrl.getD "") = row.callbackUrl ↔ row.callbackUrl ≠ none := by
    cases row.callbackUrl <;> simp
  simp [TaskView.agrees_iff, rebuiltView, TaskDoc.view, payload, view, hretries, hu]

theorem compensationView_agrees_iff : row.compensationView.Agrees row.view ↔ row.priority = .normal := by
  have hr : 3 = row.priority.weight ↔ row.priority = .normal := by
    cases row.priority <;> decide
  simp [TaskView.agrees_iff, compensationView, TaskDoc.view, CompensationService.taskData, view, hr]

theorem infoView_agrees_iff : (toTaskInfo row).view.Agrees row.view ↔ row.maxRetries ≠ 0 ∧ row.attempt = 0 := by
  have hretries : (if row.maxRetries = 0 then 3 else row.maxRetries) = row.maxRetries ↔ row.maxRetries ≠ 0 := by
    split <;> omega
  simp [TaskView.agrees_iff, TaskInfo.view, toTaskInfo, view, hretries, eq_comm]

theorem fields_agree_iff :
    (∀ v ∈ [row.rebuiltView, row.compensationView, (toTaskInfo row).view],
      v.Agrees row.view ∧ v.Agrees row.createdView) ↔
      row.maxRetries ≠ 0 ∧ row.attempt = 0 ∧ row.callbackUrl ≠ none ∧ row.priority = .normal := by
  simp only [agrees_both_iff, List.forall_mem_cons, rebuiltView_agrees_iff, compensationView_agrees_iff,
    infoView_agrees_iff, List.not_mem_nil, false_imp_iff, implies_true, and_true]
  tauto

def Active : Prop := row.status = .queued ∨ row.status = .running

def Ended : Prop := row.status = .completed ∨ row.status = .failed

end TaskRecord

namespace TaskReconciler
open QueueKeys

variable {rc : TaskReconciler}

variable {row : TaskRecord} {t : TaskDoc}

section
variable (hstatus : t.status = some row.status.value)
include hstatus

theorem isStuckCandidate_iff : isStuckCandidate t = true ↔ row.Active := by
  unfold isStuckCandidate TaskDoc.statusText TaskRecord.Active
  rw [hstatus]
  cases row.status <;> decide

theorem wantsCallback_iff : wantsCallback t = true ↔ row.Ended ∧ t.callbackUrl.getD "" ≠ "" := by
  have he : lower (t.status.getD "") ∈ ["completed", "failed"] ↔ row.Ended := by
    unfold TaskRecord.Ended
    rw [hstatus]
    cases row.status <;> decide
  unfold wantsCallback TaskDoc.statusText
  rw [decide_eq_true_iff, he]

end

/-- A document of the row, whoever wrote it. -/
structure DocOf (row : TaskRecord) (t : TaskDoc) : Prop where
  id : t.idText = row.taskId
  status : t.status = some row.status.value

def InReach (rc : TaskReconciler) (row : TaskRecord) : Prop :=
  row.Active ∧ row.taskId ≠ "" ∧ 0 < rc.stuckMaxPerTick

theorem takes_iff {row : TaskRecord} {t : TaskDoc} (h : DocOf row t) (w : World) :
    rc.Takes t w ↔ rc.InReach row ∧ rc.tooYoung w.redis.clock t = false ∧
      w.redis.existsKey (lockKey row.taskId) = false ∧ w.redis.existsKey (requeueDedupKey row.taskId) = false := by
  unfold Takes Skips InReach
  rw [isStuckCandidate_iff h.status, h.id]
  simp only [not_or, Bool.not_eq_true]
  tauto

theorem docOf_payload (row : TaskRecord) : DocOf row row.payload := ⟨rfl, rfl⟩

theorem docOf_taskData (row : TaskRecord) : DocOf row (CompensationService.taskData row) := ⟨rfl, rfl⟩

theorem docOf_created (row : TaskRecord) : DocOf row row.created := ⟨rfl, rfl⟩

variable {t' : TaskDoc} {w : World}

theorem phase2Decision_eq_of_not_requeues (h : DocOf row t) (h' : DocOf row t')
    (hy : rc.InReach row → rc.tooYoung w.redis.clock t = rc.tooYoung w.redis.clock t')
    (hre : rc.InReach row → ¬ rc.Requeues t ∧ ¬ rc.Requeues t') :
    rc.phase2Decision t w = rc.phase2Decision t' w := by
  by_cases ht : rc.Takes t w
  · obtain ⟨hr, hold, hf⟩ := (takes_iff h w).mp ht
    have ht' : rc.Takes t' w := (takes_iff h' w).mpr ⟨hr, hy hr ▸ hold, hf⟩
    rw [phase2Decision_of_takes ht, phase2Decision_of_takes ht', if_neg (hre hr).1,
      if_neg (hre hr).2, h.id, h'.id]
  · have ht' : ¬ rc.Takes t' w := by
      intro ht'
      obtain ⟨hr, hold, hf⟩ := (takes_iff h' w).mp ht'
      exact ht ((takes_iff h w).mpr ⟨hr, hy hr ▸ hold, hf⟩)
    rw [phase2Decision_of_not_takes ht, phase2Decision_of_not_takes ht']

theorem phase3Decision_eq_nil (h : wantsCallback t = false) : phase3Decision t w = [] := by
  simp [phase3Decision, h]

/-- The row's documents are treated alike: no callback is due, and phase 2 passes over them or fails
them at any age. -/
def AlikeToPhases (rc : TaskReconciler) (row : TaskRecord) : Prop :=
  (row.Ended → row.callbackUrl.getD "" = "") ∧
    (rc.InReach row → row.createdAt = 0 ∧
      (rc.queueManager.isSome = true → row.maxRetries ≤ 0 ∧ row.maxRetries ≤ row.attempt))

def blank (now : ℚ) : World := World.empty.onRedis fun r => { r with clock := now }

theorem tooYoung_of_undated (t : TaskDoc) (h : t.createdAtTs.getD 0 = 0) (now : ℚ) : rc.tooYoung now t = false := by
  simp [tooYoung, h]

theorem takes_blank (hin : rc.InReach row) {t : TaskDoc} (h : DocOf row t) {now : ℚ} (hold : rc.tooYoung now t = false) :
    rc.Takes t (blank now) := (takes_iff h (blank now)).mpr ⟨hin, hold, rfl, rfl⟩

theorem requeues_created_iff : rc.Requeues row.created ↔ rc.queueManager.isSome = true ∧ 0 < row.maxRetries := Iff.rfl

theorem not_requeues_taskData : ¬ rc.Requeues (CompensationService.taskData row) := by
  simp [Requeues, CompensationService.taskData]

theorem wantsCallback_taskData : wantsCallback (CompensationService.taskData row) = false := by
  rw [← Bool.not_eq_true, wantsCallback_iff (docOf_taskData row).status]
  exact fun h => h.2 rfl

section
variable (hretries : row.maxRetries ≠ 0)
include hretries

theorem requeues_payload_iff :
    rc.Requeues row.payload ↔ rc.queueManager.isSome = true ∧ row.attempt < row.maxRetries := by
  simp [Requeues, TaskRecord.payload, hretries]

theorem sameDecisions_of_alike (h : rc.AlikeToPhases row) {t : TaskDoc}
    (ht : t ∈ [row.payload, CompensationService.taskData row]) : rc.SameDecisions t row.created := by
  obtain ⟨hu, hr⟩ := h
  have hs {d : TaskDoc} (hd : DocOf row d) (hsa : d.callbackUrl.getD "" = row.callbackUrl.getD "") :
      wantsCallback d = false := by
    rw [← Bool.not_eq_true, wantsCallback_iff hd.status, hsa]
    exact fun hw => hw.2 (hu hw.1)
  have hc : rc.InReach row → ¬ rc.Requeues row.created := by
    intro hin hre
    obtain ⟨hq, hpos⟩ := requeues_created_iff.mp hre
    have := ((hr hin).2 hq).1
    omega
  have hold : rc.InReach row → ∀ now, rc.tooYoung now row.created = false := fun hin =>
    tooYoung_of_undated row.created (hr hin).1
  intro w
  rw [phase3Decision_eq_nil (hs (docOf_created row) rfl)]
  rw [List.mem_pair] at ht
  rcases ht with rfl | rfl
  · refine ⟨phase2Decision_eq_of_not_requeues (docOf_payload row) (docOf_created row) (fun hin => ?_) fun hin => ?_,
      phase3Decision_eq_nil (hs (docOf_payload row) rfl)⟩
    · rw [hold hin, tooYoung_of_undated _ rfl]
    · refine ⟨fun hre => ?_, hc hin⟩
      obtain ⟨hq, hlt⟩ := (requeues_payload_iff hretries).mp hre
      have := ((hr hin).2 hq).2
      omega
  · refine ⟨phase2Decision_eq_of_not_requeues (docOf_taskData row) (docOf_created row) (fun hin => ?_) fun hin =>
      ⟨not_requeues_taskData, hc hin⟩, phase3Decision_eq_nil wantsCallback_taskData⟩
    rw [hold hin, tooYoung_of_undated (CompensationService.taskData row) (hr hin).1]

theorem alike_of_sameDecisions (hp : rc.SameDecisions row.payload row.created)
    (hd : rc.SameDecisions (CompensationService.taskData row) row.created) : rc.AlikeToPhases row := by
  constructor
  · intro he
    by_contra hur
    have hw : wantsCallback row.created = true := (wantsCallback_iff (docOf_created row).status).mpr ⟨he, hur⟩
    have hs := (hd (blank 0)).2
    rw [phase3Decision_eq_nil wantsCallback_taskData] at hs
    have hse : phase3Decision row.created (blank 0) = [(row.taskId, row.callbackUrl.getD "")] := by
      simp only [phase3Decision, List.filter_singleton, hw]
      rfl
    rw [hse] at hs
    cases hs
  · intro hin
    have hpa (now : ℚ) : rc.Takes row.payload (blank now) :=
      takes_blank hin (docOf_payload row) (tooYoung_of_undated _ rfl now)
    have hu : row.createdAt = 0 := by
      -- while the row is young the rebuilt document is taken on and the other is not
      by_contra hdat
      let now := row.createdAt + rc.stuckMaxAge - 1
      have hy : rc.tooYoung now row.created = true := by
        have ha : now - row.createdAt < rc.stuckMaxAge := by
          dsimp only [now]
          linarith
        exact decide_eq_true ⟨hdat, ha⟩
      have hl : ¬ rc.Takes row.created (blank now) := by
        intro ht
        have hold := ((takes_iff (docOf_created row) _).mp ht).2.1
        rw [show (blank now).redis.clock = now from rfl, hy] at hold
        cases hold
      have hs := (hp (blank now)).1
      rw [phase2Decision_of_takes (hpa now), phase2Decision_of_not_takes hl] at hs
      split at hs <;> cases hs
    have hc : rc.Takes row.created (blank 0) :=
      takes_blank hin (docOf_created row) (tooYoung_of_undated row.created hu 0)
    have hda : rc.Takes (CompensationService.taskData row) (blank 0) :=
      takes_blank hin (docOf_taskData row) (tooYoung_of_undated (CompensationService.taskData row) hu 0)
    refine ⟨hu, fun hq => ?_⟩
    have hf : ¬ rc.Requeues row.created := by
      intro hr
      have hs := (hd (blank 0)).1
      rw [phase2Decision_of_takes hda, phase2Decision_of_takes hc, if_neg not_requeues_taskData,
        if_pos hr] at hs
      cases hs
    have hf' : ¬ rc.Requeues row.payload := by
      intro hr
      have hs := (hp (blank 0)).1
      rw [phase2Decision_of_takes (hpa 0), phase2Decision_of_takes hc, if_pos hr,
        if_neg hf] at hs
      cases hs
    rw [requeues_created_iff] at hf
    rw [requeues_payload_iff hretries] at hf'
    constructor
    · by_contra hpos
      exact hf ⟨hq, by omega⟩
    · by_contra hlt
      exact hf' ⟨hq, by omega⟩

end

/-- The views of a row agree exactly when it has a limit and a URL that are not replaced, no attempt and the
default priority, and no phase has anything to decide about it. -/
theorem views_agree_iff (rc : TaskReconciler) (row : TaskRecord) :
    rc.ViewsAgree row ↔
      row.maxRetries ≠ 0 ∧ row.attempt = 0 ∧ row.callbackUrl ≠ none ∧ row.priority = .normal ∧
        rc.AlikeToPhases row := by
  constructor
  · rintro ⟨hf, hd⟩
    obtain ⟨hretries, hat, hu, hp⟩ := row.fields_agree_iff.mp hf
    refine ⟨hretries, hat, hu, hp, alike_of_sameDecisions hretries ?_ ?_⟩
    · exact hd _ List.mem_cons_self
    · exact hd _ (List.mem_cons_of_mem _ List.mem_cons_self)
  · rintro ⟨hretries, hat, hu, hp, ha⟩
    exact ⟨row.fields_agree_iff.mpr ⟨hretries, hat, hu, hp⟩,
      fun t ht => sameDecisions_of_alike hretries ha ht⟩

def urgentOnce : TaskRecord :=
  { bareRow "t" .queued with taskType := "gpu", priority := .high, maxRetries := 0, createdAt := 990 }

/-- It is shown and rebuilt with three retries, compensated with the default rank, and ten seconds after
its creation phase 2 requeues the rebuilt document and passes over the creator's. -/
theorem views_disagree :
    urgentOnce.payload.maxRetries = some 3 ∧ (toTaskInfo urgentOnce).maxRetries = 3 ∧
      urgentOnce.created.maxRetries = some 0 ∧
      (CompensationService.taskData urgentOnce).priorityRank = some 3 ∧ urgentOnce.created.priorityRank = some 2 ∧
      plain.phase2Decision urgentOnce.payload (blank 1000) = .ok ([⟨"t", 0, "gpu", 3⟩], []) ∧
      plain.phase2Decision urgentOnce.created (blank 1000) = .ok ([], []) ∧ ¬ plain.ViewsAgree urgentOnce := by
  refine ⟨rfl, rfl, rfl, rfl, by decide +kernel, by decide +kernel, by decide +kernel, ?_⟩
  rintro ⟨hf, -⟩
  exact (urgentOnce.fields_agree_iff.mp hf).1 rfl

end TaskReconciler

end AsyncScheduler
