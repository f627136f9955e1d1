import AsyncScheduler.Properties.Waiting

/-!
# What phase 2 leaves in the stores

Phase 2 marks only the cached document of a task it gives up on, and only adds entries to the
queues.
-/

namespace AsyncScheduler
open List QueueManager

def TaskDoc.queueName (t : TaskDoc) : String := (TaskReconciler.requeueInfo t).capability

structure RecordedFailed (t : TaskDoc) (w : World) : Prop where
  stored : ∃ row, w.db.tasks.find t.idText = some row ∧ row.status = .failed
  cached : w.cachedStatus t.idText = some TaskStatus.failed.value
  notPending : t.idText ∉ w.pending t.queueName
  notRunning : t.idText ∉ w.running t.queueName

structure RecordedQueued (t : TaskDoc) (w : World) : Prop where
  pending : t.idText ∈ w.pending t.queueName
  notRunning : t.idText ∉ w.running t.queueName

namespace TaskReconciler

/-- Every document taken on is recorded in both stores as phase 2 decided. -/
structure Settled (rc : TaskReconciler) (ts : List TaskDoc) (w : World) : Prop where
  failed : ∀ t ∈ ts, ¬ rc.Requeues t → RecordedFailed t w
  requeued : ∀ t ∈ ts, rc.Requeues t → RecordedQueued t w

def letThrough (q : QueueManager) (nowMs : Int) : List RequeueInfo → Store → List RequeueInfo
  | [], _ => []
  | info :: rest, r =>
    if info.capability = "" then letThrough q nowMs rest r
    else if q.Admits info.capability r then
      info :: letThrough q nowMs rest (q.enqueued info.capability info.taskId (requeueScore nowMs info r) r)
    else []

def newcomers (infos : List RequeueInfo) (c : String) (r : Store) : List RequeueInfo :=
  infos.filter fun info => info.capability = c ∧ info.taskId ∉ r.zsets (QueueKeys.pending c)

def HasRoom (q : QueueManager) (infos : List RequeueInfo) (c : String) (r : Store) : Prop :=
  ∀ n < (newcomers infos c r).length, (r.zcard (QueueKeys.pending c) : ℚ) + n <
    effectiveLimit (r.hget (QueueKeys.config c) "max_queue_depth") q.defaultDepth

section
variable {q : QueueManager} (nowMs : Int) {infos : List RequeueInfo} {r : Store}

theorem mem_of_mem_letThrough {info : RequeueInfo} (h : info ∈ letThrough q nowMs infos r) : info ∈ infos := by
  induction infos generalizing r with
  | nil => cases h
  | cons first rest ih =>
    unfold letThrough at h
    split at h
    · exact mem_cons_of_mem _ (ih h)
    · split at h
      · rcases mem_cons.mp h with rfl | h
        · exact mem_cons_self
        · exact mem_cons_of_mem _ (ih h)
      · cases h

theorem newcomers_congr {c : String} {r' : Store}
    (h : ∀ info ∈ infos, info.taskId ∈ r'.zsets (QueueKeys.pending c) ↔ info.taskId ∈ r.zsets (QueueKeys.pending c)) :
    newcomers infos c r' = newcomers infos c r :=
  filter_congr fun info hi => by simp only [h info hi]

theorem forall_lt_succ_iff (z d : ℚ) (k : ℕ) : (∀ n < k + 1, z + n < d) ↔ z < d ∧ ∀ n < k, z + 1 + n < d := by
  constructor
  · intro h
    refine ⟨by simpa using h 0 (Nat.succ_pos k), fun n hn => ?_⟩
    have hne := h (n + 1) (Nat.succ_lt_succ hn)
    push_cast at hne
    linarith
  · rintro ⟨hz, h⟩ n hn
    cases n with
    | zero => simpa using hz
    | succ n =>
      have hp := h n (Nat.lt_of_succ_lt_succ hn)
      push_cast
      linarith

variable (httl : 0 < q.ttl)
include httl

theorem mem_requeued_iff (c x : String) (h : ∀ info ∈ letThrough q nowMs infos r, info.taskId ≠ x) :
    x ∈ (requeued q nowMs infos r).2.zsets (QueueKeys.pending c) ↔ x ∈ r.zsets (QueueKeys.pending c) := by
  induction infos generalizing r with
  | nil => rfl
  | cons info rest ih =>
    unfold letThrough at h
    unfold requeued
    by_cases he : info.capability = ""
    · rw [if_pos he] at h ⊢
      exact ih h
    rw [if_neg he] at h ⊢
    by_cases ha : q.Admits info.capability r
    · rw [if_pos ha] at h ⊢
      have hne : x ≠ info.taskId := (h info mem_cons_self).symm
      rw [ih fun other ho => h other (mem_cons_of_mem _ ho), mem_enqueued _ _ httl]
      tauto
    · rw [if_neg ha, Redis.zsets_of_sorted (q.sorted_probed _ r)]

theorem mem_requeued_of_mem {c x : String} (h : x ∈ r.zsets (QueueKeys.pending c)) :
    x ∈ (requeued q nowMs infos r).2.zsets (QueueKeys.pending c) := by
  refine requeued_keeps q nowMs infos r (P := fun r' => x ∈ r'.zsets (QueueKeys.pending c)) ?_ ?_ h
  · intro c' r' hr'
    rwa [Redis.zsets_of_sorted (q.sorted_probed c' r')]
  · intro info _ score r' hr'
    exact (mem_enqueued _ _ httl _ _ _ _).mpr (.inl hr')

theorem hasRoom_cons_iff (info : RequeueInfo) (score : ℚ) (c : String)
    (hne : ∀ other ∈ infos, other.taskId ≠ info.taskId) :
    HasRoom q (info :: infos) c r ↔
      (c = info.capability → info.taskId ∈ r.zsets (QueueKeys.pending c) ∨ ¬ q.Full c r) ∧
        HasRoom q infos c (q.enqueued info.capability info.taskId score r) := by
  have hs : newcomers infos c (q.enqueued info.capability info.taskId score r) = newcomers infos c r := by
    refine newcomers_congr fun other ho => ?_
    have ho := hne other ho
    rw [mem_enqueued _ _ httl]
    tauto
  unfold HasRoom
  rw [hs, zcard_enqueued _ _ httl, hget_config_enqueued _ _ httl]
  by_cases hn : c = info.capability ∧ info.taskId ∉ r.zsets (QueueKeys.pending c)
  · obtain ⟨rfl, ha⟩ := hn
    have hco : newcomers (info :: infos) info.capability r = info :: newcomers infos info.capability r := by
      simp [newcomers, ha]
    rw [hco, length_cons, forall_lt_succ_iff]
    by_cases hf : q.Full info.capability r
    · -- the first newcomer is refused already
      refine ⟨fun h => absurd hf (not_le.mpr h.1), fun h => ?_⟩
      exact absurd hf ((h.1 rfl).resolve_left ha)
    · rw [if_pos ⟨rfl, hf, ha⟩, Nat.cast_add, Nat.cast_one]
      exact ⟨fun h => ⟨fun _ => .inr hf, h.2⟩, fun h => ⟨not_le.mp hf, h.2⟩⟩
  · have hco : newcomers (info :: infos) c r = newcomers infos c r :=
      filter_cons_of_neg (by simpa using fun hc ha => hn ⟨hc.symm, ha⟩)
    have hz : ¬ (c = info.capability ∧ ¬ q.Full info.capability r ∧ info.taskId ∉ r.zsets (QueueKeys.pending c)) :=
      fun h => hn ⟨h.1, h.2.2⟩
    rw [hco, if_neg hz, Nat.add_zero]
    refine ⟨fun h => ⟨fun hc => .inl ?_, h⟩, fun h => h.2⟩
    by_contra ha
    exact hn ⟨hc, ha⟩

/-- All requeues that the breaker lets through find their place exactly when every queue has room. -/
theorem forall_mem_requeued_iff (hn : (infos.map RequeueInfo.taskId).Nodup) :
    (∀ info ∈ letThrough q nowMs infos r,
      info.taskId ∈ (requeued q nowMs infos r).2.zsets (QueueKeys.pending info.capability)) ↔
      ∀ c, HasRoom q (letThrough q nowMs infos r) c r := by
  induction infos generalizing r with
  | nil => simp [letThrough, HasRoom, newcomers]
  | cons info rest ih =>
    obtain ⟨hf, hr⟩ := nodup_cons.mp hn
    unfold letThrough requeued
    by_cases he : info.capability = ""
    · rw [if_pos he, if_pos he]
      exact ih hr
    rw [if_neg he, if_neg he]
    by_cases ha : q.Admits info.capability r
    · rw [if_pos ha, if_pos ha, forall_mem_cons, ih hr]
      have hne : ∀ other ∈ letThrough q nowMs rest
          (q.enqueued info.capability info.taskId (requeueScore nowMs info r) r), other.taskId ≠ info.taskId := by
        intro other ho hs
        exact hf (hs ▸ mem_map_of_mem (mem_of_mem_letThrough nowMs ho))
      simp only [hasRoom_cons_iff httl info (requeueScore nowMs info r) _ hne, forall_and, forall_eq]
      rw [mem_requeued_iff nowMs httl _ _ hne, mem_enqueued _ _ httl]
      simp
    · rw [if_neg ha]
      simp [HasRoom, newcomers]

end

section
variable (rc : TaskReconciler) (batch : List TaskDoc) (w : World)
variable {t : TaskDoc} {c x : String}

def admitted : List RequeueInfo :=
  match rc.queueManager with
  | some q => letThrough q (toMs w.redis.clock) (rc.requeueInfos (rc.taken batch w.redis))
      ((rc.taken batch w.redis).foldl marked w.redis)
  | none => []

/-- What phase 2 must find in the stores: a task it fails has left every queue and is stored as
failed, and its document is there to be marked, or marked already if a refusal of the breaker
comes first; a task it requeues has left the running tasks and gets to a queue with room. -/
structure CanSettle : Prop where
  failed : ∀ t ∈ rc.taken batch w.redis, ¬ rc.Requeues t →
    (∃ row, w.db.tasks.find t.idText = some row ∧ row.status = .failed) ∧
    (if AllAdmitted rc batch w then ∃ d, w.redis.get (taskKey t.idText) = some (.task d)
      else w.cachedStatus t.idText = some TaskStatus.failed.value) ∧
    t.idText ∉ w.pending t.queueName ∧ t.idText ∉ w.running t.queueName
  requeued : ∀ t ∈ rc.taken batch w.redis, rc.Requeues t →
    (t.idText ∈ w.pending t.queueName ∨ requeueInfo t ∈ admitted rc batch w) ∧
    t.idText ∉ w.running t.queueName
  room : ∀ q, rc.queueManager = some q → ∀ c, HasRoom q (admitted rc batch w) c w.redis

theorem nodup_requeueIds : ((rc.requeueInfos (rc.taken batch w.redis)).map RequeueInfo.taskId).Nodup := by
  have hi : (rc.requeueInfos (rc.taken batch w.redis)).map RequeueInfo.taskId =
      ((rc.taken batch w.redis).filter (rc.Requeues ·)).map TaskDoc.idText := by
    rw [requeueInfos, map_map]
    rfl
  rw [hi]
  exact nodup_select.sublist (filter_sublist.map _)

theorem pending_repaired (c : String) :
    (rc.repaired batch w).pending c = (requeuedStore rc batch w).zsets (QueueKeys.pending c) := by
  unfold World.pending
  rw [Redis.zsets_of_sorted (sorted_repaired rc batch w)]

theorem pending_marked (c : String) :
    ((rc.taken batch w.redis).foldl marked w.redis).zsets (QueueKeys.pending c) = w.pending c := by
  rw [Redis.zsets_of_sorted (edits_taken rc batch w).sorted]
  rfl

theorem hasRoom_marked (q : QueueManager) (infos : List RequeueInfo) (c : String) :
    HasRoom q infos c ((rc.taken batch w.redis).foldl marked w.redis) ↔ HasRoom q infos c w.redis := by
  have hz := Redis.zsets_of_sorted (edits_taken rc batch w).sorted
  unfold HasRoom newcomers Redis.zcard Redis.hget
  rw [hz, (edits_taken rc batch w).hashes]

variable {rc batch w}

theorem eq_of_mem_taken {u : TaskDoc} (ht : t ∈ rc.taken batch w.redis) (hu : u ∈ rc.taken batch w.redis)
    (h : t.idText = u.idText) : t = u :=
  inj_on_of_nodup_map nodup_select ht hu h

theorem mem_admitted {info : RequeueInfo} (h : info ∈ admitted rc batch w) :
    ∃ t ∈ rc.taken batch w.redis, rc.Requeues t ∧ requeueInfo t = info := by
  unfold admitted at h
  split at h
  · obtain ⟨t, ht, rfl⟩ := mem_map.mp (mem_of_mem_letThrough _ h)
    obtain ⟨hta, hr⟩ := mem_filter.mp ht
    exact ⟨t, hta, by simpa using hr, rfl⟩
  · cases h

theorem cachedStatus_repaired (ht : t ∈ rc.taken batch w.redis) (hf : ¬ rc.Requeues t) :
    (rc.repaired batch w).cachedStatus t.idText = some TaskStatus.failed.value ↔
      if AllAdmitted rc batch w then ∃ d, w.redis.get (taskKey t.idText) = some (.task d)
      else w.cachedStatus t.idText = some TaskStatus.failed.value := by
  have hm : t.idText ∈ rc.failIds (rc.taken batch w.redis) := mem_failIds_iff.mpr ⟨t, ht, hf, rfl⟩
  unfold World.cachedStatus
  rw [get_repaired]
  by_cases ha : AllAdmitted rc batch w
  · rw [if_pos ⟨ha, hm⟩, if_pos ha]
    constructor
    · intro h
      cases hget : w.redis.get (taskKey t.idText) with
      | none =>
        rw [hget] at h
        cases h
      | some v =>
        rw [hget] at h
        cases v with
        | task d => exact ⟨d, rfl⟩
        | _ => cases h
    · rintro ⟨d, hget⟩
      rw [hget]
      rfl
  · rw [if_neg fun h => ha h.1, if_neg ha]

theorem stored_repaired (ht : t ∈ rc.taken batch w.redis) (hf : ¬ rc.Requeues t) :
    (rc.repaired batch w).db.tasks.find t.idText = w.db.tasks.find t.idText := by
  rw [find_repaired, if_neg]
  rintro ⟨_, u, hu, hr, hn⟩
  rw [eq_of_mem_taken hu ht hn] at hr
  exact hf hr

variable (httl : ∀ q, rc.queueManager = some q → 0 < q.ttl)
include httl

theorem mem_pending_repaired_of_mem (h : x ∈ w.pending c) : x ∈ (rc.repaired batch w).pending c := by
  rw [pending_repaired, requeuedStore]
  rw [← pending_marked rc batch w] at h
  unfold requeuedBy
  split
  · rename_i q hq
    exact mem_requeued_of_mem _ (httl q hq) h
  · exact h

theorem mem_pending_repaired_iff (h : ∀ info ∈ admitted rc batch w, info.taskId ≠ x) :
    x ∈ (rc.repaired batch w).pending c ↔ x ∈ w.pending c := by
  rw [pending_repaired, requeuedStore, ← pending_marked rc batch w]
  unfold requeuedBy
  unfold admitted at h
  split
  · rename_i q hq
    rw [hq] at h
    rw [clock_marked]
    exact mem_requeued_iff _ (httl q hq) _ _ h
  · rfl

theorem admitted_pending_iff :
    (∀ info ∈ admitted rc batch w, info.taskId ∈ (rc.repaired batch w).pending info.capability) ↔
      ∀ q, rc.queueManager = some q → ∀ c, HasRoom q (admitted rc batch w) c w.redis := by
  simp only [pending_repaired, requeuedStore]
  unfold requeuedBy admitted
  rw [clock_marked]
  cases hq : rc.queueManager with
  | none => simp
  | some q =>
    have hf := forall_mem_requeued_iff (toMs w.redis.clock) (httl q hq)
      (nodup_requeueIds rc batch w)
      (r := (rc.taken batch w.redis).foldl marked w.redis)
    simp only [hasRoom_marked] at hf
    simpa using hf

theorem recordedFailed_repaired_iff (ht : t ∈ rc.taken batch w.redis) (hf : ¬ rc.Requeues t) :
    RecordedFailed t (rc.repaired batch w) ↔
      (∃ row, w.db.tasks.find t.idText = some row ∧ row.status = .failed) ∧
      (if AllAdmitted rc batch w then ∃ d, w.redis.get (taskKey t.idText) = some (.task d)
        else w.cachedStatus t.idText = some TaskStatus.failed.value) ∧
      t.idText ∉ w.pending t.queueName ∧ t.idText ∉ w.running t.queueName := by
  have ho : ∀ info ∈ admitted rc batch w, info.taskId ≠ t.idText := by
    intro info hi hn
    obtain ⟨u, hu, hr, rfl⟩ := mem_admitted hi
    rw [eq_of_mem_taken hu ht hn] at hr
    exact hf hr
  rw [← cachedStatus_repaired ht hf, ← stored_repaired ht hf, ← mem_pending_repaired_iff httl ho,
    ← running_repaired rc batch w]
  constructor
  · intro h
    exact ⟨h.stored, h.cached, h.notPending, h.notRunning⟩
  · rintro ⟨hs, hc, hp, hru⟩
    exact ⟨hs, hc, hp, hru⟩

theorem pending_of_requeues (ht : t ∈ rc.taken batch w.redis) :
    t.idText ∈ (rc.repaired batch w).pending t.queueName →
      t.idText ∈ w.pending t.queueName ∨ requeueInfo t ∈ admitted rc batch w := by
  intro h
  by_cases ha : requeueInfo t ∈ admitted rc batch w
  · exact .inr ha
  · refine .inl ((mem_pending_repaired_iff httl fun info hi hn => ha ?_).mp h)
    obtain ⟨u, hu, _, rfl⟩ := mem_admitted hi
    rwa [← eq_of_mem_taken hu ht hn]

theorem settled_repaired_iff : rc.Settled (rc.taken batch w.redis) (rc.repaired batch w) ↔ CanSettle rc batch w := by
  constructor
  · intro h
    refine ⟨fun t ht hf => (recordedFailed_repaired_iff httl ht hf).mp (h.failed t ht hf), ?_, ?_⟩
    · intro t ht hr
      obtain ⟨hp, hru⟩ := h.requeued t ht hr
      exact ⟨pending_of_requeues httl ht hp, running_repaired rc batch w _ ▸ hru⟩
    · refine (admitted_pending_iff httl).mp fun info hi => ?_
      obtain ⟨t, ht, hr, rfl⟩ := mem_admitted hi
      exact (h.requeued t ht hr).pending
  · intro h
    refine ⟨fun t ht hf => (recordedFailed_repaired_iff httl ht hf).mpr (h.failed t ht hf), ?_⟩
    intro t ht hr
    obtain ⟨hpl, hru⟩ := h.requeued t ht hr
    refine ⟨?_, (running_repaired rc batch w _).symm ▸ hru⟩
    rcases hpl with hp | ha
    · exact mem_pending_repaired_of_mem httl hp
    · exact (admitted_pending_iff httl).mpr h.room _ ha

end

end TaskReconciler

/-- Phase 2 leaves every task it took on as it decided, in both stores, exactly when the stores
were almost there before: it stores no status, takes nothing out of a queue and drops what a
queue or the breaker refuses. -/
theorem stuck_recovery_settles_iff (rc : TaskReconciler) (batch : List TaskDoc) (w : World)
    (httl : ∀ q, rc.queueManager = some q → 0 < q.ttl) :
    rc.Settled (rc.taken batch w.redis) ((rc.phase2StuckRecovery batch).runWith Command.apply .ok w).2 ↔
      TaskReconciler.CanSettle rc batch w := by
  rw [TaskReconciler.world_phase2]
  exact TaskReconciler.settled_repaired_iff httl

def World.recovering (w : World) (x : String) : World :=
  ((TaskReconciler.plain.phase2StuckRecovery (TaskReconciler.scannedBatch [x] w.redis)).runWith Command.apply .ok w).2

/-- A task of type `gpu`, created and dequeued at second 1000, of which nothing was heard until
second 1400. -/
def World.abandonedGpu (retries : Option Int) : World :=
  ((({} : QueueManager).dequeueReady "gpu").runWith Command.apply .ok (World.waitingGpu retries)).2.exec (.advance 1400)

/-- The one without retries is failed in the cache alone: its row is still queued, and it still
holds its place among the running tasks. The other one is pending and running at once. -/
theorem stuck_recovery_leaves_running :
    let x := Uuid.one.text
    let failed := (World.abandonedGpu none).recovering x
    let requeued := (World.abandonedGpu (some 3)).recovering x
    (TaskReconciler.plain.taken (TaskReconciler.scannedBatch [x] (World.abandonedGpu none).redis)
      (World.abandonedGpu none).redis).map (fun t => (t.idText, t.queueName, decide (TaskReconciler.plain.Requeues t))) =
      [(x, "gpu", false)] ∧
    (TaskReconciler.plain.taken (TaskReconciler.scannedBatch [x] (World.abandonedGpu (some 3)).redis)
      (World.abandonedGpu (some 3)).redis).map
        (fun t => (t.idText, t.queueName, decide (TaskReconciler.plain.Requeues t))) = [(x, "gpu", true)] ∧
    (failed.db.tasks.find x).map TaskRecord.status = some .queued ∧ failed.cachedStatus x = some "failed" ∧
    x ∈ failed.running "gpu" ∧ x ∈ requeued.pending "gpu" ∧ x ∈ requeued.running "gpu" := by
  decide +kernel

/-- A document that still says `running` although its task is stored as failed. -/
def TaskDoc.staleRunning : TaskDoc := { taskId := some "t", status := some "running", capability := some "gpu" }

def World.staleFailed : World :=
  ((World.storing (bareRow "t" .failed)).onRedis (·.advance 1000)).onRedis
    (·.set (taskKey "t") (.task .staleRunning) none)

theorem stuck_recovery_settles_iff_stale :
    TaskReconciler.plain.Settled (TaskReconciler.plain.taken [.staleRunning] World.staleFailed.redis)
      ((TaskReconciler.plain.phase2StuckRecovery [.staleRunning]).runWith Command.apply .ok World.staleFailed).2 := by
  have hta : TaskReconciler.plain.taken [.staleRunning] World.staleFailed.redis = [.staleRunning] := by
    decide +kernel
  have hf : ¬ TaskReconciler.plain.Requeues .staleRunning := by decide +kernel
  have ha : TaskReconciler.admitted .plain [.staleRunning] World.staleFailed = [] := by decide +kernel
  refine (stuck_recovery_settles_iff .plain [.staleRunning] World.staleFailed ?_).mpr ⟨?_, ?_, ?_⟩
  · intro q hq
    cases hq
    decide
  · rw [hta]
    intro t ht _
    obtain rfl := List.mem_singleton.mp ht
    refine ⟨⟨bareRow "t" .failed, find_storing _, rfl⟩, ?_, by decide +kernel, by decide +kernel⟩
    rw [if_pos (by decide +kernel)]
    exact ⟨.staleRunning, rfl⟩
  · rw [hta]
    intro t ht hr
    obtain rfl := List.mem_singleton.mp ht
    exact absurd hr hf
  · intro q _ c n hn
    rw [ha] at hn
    cases hn

end AsyncScheduler
