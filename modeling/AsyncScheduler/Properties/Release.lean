import AsyncScheduler.Platform.TickRun
import AsyncScheduler.Properties.Completion
import AsyncScheduler.Properties.Submission

/-!
# Release times

A delay is part of the score of a queue entry, and an entry that keeps its score is not handed out
before its time.
-/

namespace AsyncScheduler
open QueueKeys List QueueManager

/-- A task that is to wait for a number of seconds from an instant on. -/
structure Hold where
  taskId : String
  capability : String
  since : ℚ
  delay : Int
  since_pos : 0 < since
  delay_pos : 0 < delay

namespace Hold

def releaseMs (h : Hold) : Int := toMs h.since + 1000 * h.delay

def Outlasts (h : Hold) (deadline : Option ℚ) : Prop :=
  ∀ t, deadline = some t → (h.releaseMs : ℚ) ≤ t * 1000

def Dated (h : Hold) (doc : TaskDoc) : Prop := doc.idText = h.taskId → doc.createdAtTs = some h.since

/-- The task waits for its release, and everything that recovery looks at says so. -/
structure Kept (h : Hold) (w : World) : Prop where
  since_le : h.since ≤ w.redis.clock
  early : toMs w.redis.clock < h.releaseMs
  waits : h.taskId ∈ w.pending h.capability
  scores : ∀ c score, w.redis.zscore (pending c) h.taskId = some score → (h.releaseMs : ℚ) ≤ scoreTime score
  outlasts : h.Outlasts (w.redis.deadline (pending h.capability))
  cached : ∃ doc deadline, w.redis.strings (taskKey h.taskId) = some (.task doc, deadline) ∧ h.Outlasts deadline
  dated : w.Docs h.Dated
  row : RowIs h.taskId (fun _ taskType => taskType = h.capability) w

/-- A command before the release that does not concern the task. An enqueue may move the deadline
of the queue of the task, so its time to live matters. -/
def Allows (h : Hold) : Command → Prop
  | .keys ops | .callbackRetry _ _ ops =>
    ∀ op ∈ ops, op.1 ≠ taskKey h.taskId ∧ ∀ doc, op.2.doc = some doc → h.Dated doc
  | .queue (.enqueue _ taskId _ _ ttl) => taskId ≠ h.taskId ∧ h.delay ≤ ttl
  | .queue (.dequeueReady _ _ nowMs _) => nowMs < h.releaseMs
  | .queue (.cancel _ taskId) | .queue (.restore _ taskId _) => taskId ≠ h.taskId
  | .commit writes => (Command.commit writes).leaves h.taskId
  | .advance t => toMs t < h.releaseMs
  | _ => True

variable {h : Hold} {w : World} {cmd : Command}

theorem toMs_lt_iff {t : ℚ} {n : Int} : toMs t < n ↔ t * 1000 < n := Int.floor_lt

theorem releaseMs_le (h : Hold) : (h.releaseMs : ℚ) ≤ (h.since + h.delay) * 1000 := by
  have hf : (toMs h.since : ℚ) ≤ h.since * 1000 := Int.floor_le _
  unfold releaseMs
  push_cast
  linarith

theorem not_handsOut (hw : h.Kept w) (hc : h.Allows cmd) (c : String) : cmd.handsOut w ≠ some (c, h.taskId) := by
  intro ho
  obtain ⟨mc, nowMs, limit, rfl, hx⟩ := handsOut_eq_some ho
  have hn : nowMs < h.releaseMs := hc
  obtain ⟨score, hs, hr⟩ := score_firstReady (firstReady_of_dequeue hx)
  have hn' : (nowMs : ℚ) < h.releaseMs := by exact_mod_cast hn
  linarith [hw.scores c score hs]

theorem outlasts_next {deadline : Option ℚ} {e : KeyEvent} (hold : h.Outlasts deadline)
    (he : (∃ t ttl, e = .arrival t ttl ∧ h.since ≤ t ∧ h.delay ≤ ttl) ∨
      ∃ t, e = .clock t ∧ toMs t < h.releaseMs) :
    ∃ deadline', KeyEvent.next deadline e = some deadline' ∧ h.Outlasts deadline' := by
  rcases he with ⟨t, ttl, rfl, hs, httl⟩ | ⟨t, rfl, ht⟩
  · unfold KeyEvent.next
    dsimp only
    split
    · have hpos : 0 < ttl := h.delay_pos.trans_le httl
      rw [if_pos hpos]
      refine ⟨_, rfl, ?_⟩
      intro _ heq
      obtain rfl := Option.some.inj heq
      have htt' : (h.delay : ℚ) ≤ ttl := by exact_mod_cast httl
      linarith [h.releaseMs_le]
    · exact ⟨deadline, rfl, hold⟩
  · have hl : Redis.live t deadline = true := by
      cases deadline with
      | none => rfl
      | some d =>
        have hd := hold d rfl
        have ht' := toMs_lt_iff.mp ht
        exact decide_eq_true (by linarith)
    refine ⟨deadline, ?_, hold⟩
    unfold KeyEvent.next
    exact if_pos hl

theorem waits_of_allows (hw : h.Kept w) (hcm : h.Allows cmd) :
    h.taskId ∈ (w.exec cmd).pending h.capability ∧
      h.Outlasts ((w.exec cmd).redis.deadline (pending h.capability)) := by
  have hc : cmd.cancels h.capability h.taskId = false := by
    unfold Command.cancels
    split
    · rename_i c' y
      have hy : y ≠ h.taskId := hcm
      simp [hy]
    · rfl
  have hwa := waits_exec hw.waits (not_handsOut hw hcm h.capability) hc
  have hn : ∃ deadline, ((cmd.keyEvent h.capability w).map
      (KeyEvent.next (w.redis.deadline (pending h.capability)))).getD
        (some (w.redis.deadline (pending h.capability))) = some deadline ∧ h.Outlasts deadline := by
    cases he : cmd.keyEvent h.capability w with
    | none => exact ⟨_, rfl, hw.outlasts⟩
    | some e =>
      refine outlasts_next hw.outlasts ?_
      unfold Command.keyEvent at he
      split at he
      · rename_i c' y sc depth ttl
        split at he
        · cases he
          exact .inl ⟨_, ttl, rfl, hw.since_le, hcm.2⟩
        · cases he
      · rename_i t
        split at he
        · cases he
          exact .inr ⟨t, rfl, hcm⟩
        · cases he
      · cases he
  obtain ⟨deadline, hd, ho⟩ := hn
  rw [hd] at hwa
  exact ⟨hwa.1, hwa.2 ▸ ho⟩

theorem cached_of_allows (hw : h.Kept w) (hc : h.Allows cmd) :
    ∃ doc deadline, (w.exec cmd).redis.strings (taskKey h.taskId) = some (.task doc, deadline) ∧
      h.Outlasts deadline := by
  obtain ⟨doc, deadline, hdo, ho⟩ := hw.cached
  have hk : taskKey h.taskId ∉ cmd.stringKeys := by
    cases cmd with
    | keys ops =>
      intro hm
      obtain ⟨op, hop, heq⟩ := mem_map.mp hm
      exact (hc op hop).1 heq
    | callbackRetry member score ops =>
      intro hm
      obtain ⟨op, hop, heq⟩ := mem_map.mp hm
      exact (hc op hop).1 heq
    | breaker op => cases op <;> exact taskKey_notMem_breakerKeys h.taskId _
    | _ => exact not_mem_nil
  rcases strings_exec w cmd _ hk with hs | ⟨t, rfl, ha⟩
  · exact ⟨doc, deadline, hs.trans hdo, ho⟩
  · refine ⟨doc, deadline, ?_, ho⟩
    obtain ⟨deadline', hn, -⟩ := outlasts_next (e := .clock t) ho (.inr ⟨t, rfl, hc⟩)
    have hl : Redis.live t deadline = true := by
      by_contra hd
      simp [KeyEvent.next, hd] at hn
    rw [ha]
    simp [Redis.advance, hdo, hl]

theorem kept_exec (hw : h.Kept w) (hc : h.Allows cmd) : h.Kept (w.exec cmd) := by
  obtain ⟨hwa, ho⟩ := waits_of_allows hw hc
  refine
    { since_le := hw.since_le.trans (clock_le_exec w cmd)
      early := ?_
      waits := hwa
      scores := ?_
      outlasts := ho
      cached := cached_of_allows hw hc
      dated := ?_
      row := ?_ }
  · rcases clock_exec w cmd with hs | ⟨t, rfl, _, ha⟩
    · rw [hs]
      exact hw.early
    · rw [ha]
      exact hc
  · intro c score hsc
    rcases zscore_pending_exec hsc with hold | ⟨depth, ttl, rfl⟩ | rfl
    · exact hw.scores c score hold
    · exact absurd rfl hc.1
    · exact absurd rfl hc
  · refine docs_apply .ok (fun doc hd => ?_) hw.dated
    cases cmd with
    | keys ops =>
      obtain ⟨op, hop, heq⟩ := mem_filterMap.mp hd
      exact (hc op hop).2 doc heq
    | callbackRetry member score ops =>
      obtain ⟨op, hop, heq⟩ := mem_filterMap.mp hd
      exact (hc op hop).2 doc heq
    | _ => exact absurd hd not_mem_nil
  · refine rowIs_apply .ok ?_ hw.row
    cases cmd with
    | commit writes => exact hc
    | _ => trivial

theorem kept_apply (i : Fault) (hw : h.Kept w) (hc : h.Allows cmd) : h.Kept (cmd.apply i w) := by
  unfold Command.apply
  split
  · exact kept_exec hw hc
  · exact hw

variable {rc : TaskReconciler}

theorem stuck_ne {t : TaskDoc} (ha : (h.delay : ℚ) ≤ rc.stuckMaxAge) (ht : h.Dated t)
    (hs : rc.Stuck h.Kept t) : t.idText ≠ h.taskId := by
  intro hid
  obtain ⟨w, hw, hold⟩ := hs.old
  have he := toMs_lt_iff.mp hw.early
  have hr := h.releaseMs_le
  have hy : rc.tooYoung w.redis.clock t = true := by
    unfold TaskReconciler.tooYoung
    rw [ht hid]
    exact decide_eq_true ⟨h.since_pos.ne', by simp only [Option.getD_some]; linarith⟩
  rw [hy] at hold
  cases hold

theorem allows_key {k : String} {op : KeyOp} (hk : taskKey h.taskId ≠ k) (hop : op.doc = none) :
    h.Allows (.keys [(k, op)]) := by
  refine forall_mem_singleton.mpr ⟨hk.symm, fun doc hd => ?_⟩
  rw [hop] at hd
  cases hd

/-- A tick stays within what the hold allows. -/
theorem tickScope (hag : (h.delay : ℚ) ≤ rc.stuckMaxAge) (httl : ∀ q, rc.queueManager = some q → h.delay ≤ q.ttl) :
    TickScope rc h.Kept h.Allows (fun row => row.taskId = h.taskId → row.taskType = h.capability) h.Dated where
  read := trivial
  breaker _ := trivial
  register _ := trivial
  docs w hw := hw.dated
  bump ids _ := forall_mem_singleton.mpr trivial
  requeue q t sc hq ht hs _ := ⟨stuck_ne hag ht hs, httl q hq⟩
  fail ops ho := by
    intro op hop
    obtain ⟨t, d, ht, hs, -, hd, rfl⟩ := ho op hop
    refine ⟨fun heq => stuck_ne hag ht hs (taskKey_eq_taskKey.mp heq), ?_⟩
    intro doc hdo
    cases hdo
    exact hd
  rows w hw row hro hid := by
    obtain ⟨r, hr, hty⟩ := hw.row
    have hf := (Table.find_eq_some_iff _ _ _).mpr ⟨hro, hid⟩
    rw [hr] at hf
    cases hf
    exact hty
  leader op hop := allows_key (taskKey_ne_leaderKey _) hop
  cache w row hw _ _ hm := by
    have hid : row.taskId ≠ h.taskId := by
      intro heq
      obtain ⟨doc, deadline, hdo, -⟩ := hw.cached
      rw [heq, Redis.get, hdo] at hm
      cases hm
    refine forall_mem_singleton.mpr ⟨fun heq => hid (taskKey_eq_taskKey.mp heq), ?_⟩
    intro doc hdo
    cases hdo
    exact fun heq => absurd heq hid
  restore w₁ _ _ row hw₁ _ _ hro _ _ _ ha _ := by
    intro heq
    rw [hro heq, heq] at ha
    exact (SortedSet.score_eq_none_iff _ _).mp ha hw₁.waits
  repair ts := by
    intro write hwr
    obtain ⟨t, -, rfl⟩ := mem_map.mp hwr
    trivial
  transaction id op hop := allows_key (taskKey_ne_txKey _ id) hop
  dedup t _ _ := allows_key (taskKey_ne_dedupKey _ _) rfl
  callback id score event := by
    refine forall_mem_singleton.mpr ⟨(taskKey_ne_payloadKey _ id).symm, ?_⟩
    intro doc hdo
    cases hdo

def holdSystem : System Command Fault World PyErr RecoveryRequest Command where
  apply := Command.apply
  program := RecoveryRequest.program
  ambient := id

/-- The reconcilers do not take a task for stuck before the delay has passed, no queue lives
shorter than that, and the commands of others do not concern the task. -/
structure Permits (h : Hold) (moves : List (Move RecoveryRequest Command Fault)) : Prop where
  ticks : ∀ rc scanned schedule, .start (.tick rc scanned schedule) ∈ moves →
    (h.delay : ℚ) ≤ rc.stuckMaxAge ∧ ∀ q, rc.queueManager = some q → h.delay ≤ q.ttl
  others : ∀ cmd i, .env cmd i ∈ moves → (∃ t, cmd = .advance t) ∨ h.Allows cmd

variable {moves : List (Move RecoveryRequest Command Fault)}

theorem clock_le_run (s : Sys Command Fault World PyErr) :
    s.world.redis.clock ≤ (holdSystem.run s moves).world.redis.clock := by
  refine (System.run_invariant_of_moves (S := holdSystem) (I := fun _ => True) (C := fun _ => True)
    (J := fun _ w => s.world.redis.clock ≤ w.redis.clock) (fun _ _ _ => trivial) ?_
    (fun _ _ => Issues.top _) (fun _ _ _ => trivial) (fun _ _ => Issues.top _) le_rfl).1
  intro _ w cmd i _ hle
  change _ ≤ (cmd.apply i w).redis.clock
  unfold Command.apply
  split
  · exact hle.trans (clock_le_exec w cmd)
  · exact hle

theorem advance_le_run {t : ℚ} {i : Fault} (s : Sys Command Fault World PyErr)
    (hm : .env (.advance t) i ∈ moves) : t ≤ (holdSystem.run s moves).world.redis.clock := by
  obtain ⟨before, after, rfl⟩ := append_of_mem hm
  rw [System.run_append]
  refine le_trans ?_ (clock_le_run (holdSystem.move (holdSystem.run s before) (.env (.advance t) i)))
  change t ≤ ((Command.advance t).apply i (holdSystem.run s before).world).redis.clock
  have ha (w : World) : (Command.advance t).apply i w = w.exec (.advance t) := by
    simp [Command.apply, Command.awaited]
  rw [ha]
  by_cases ht : (holdSystem.run s before).world.redis.clock < t
  · simp [World.exec, ht, World.onRedis, Redis.advance]
  · have hs : ((holdSystem.run s before).world.exec (.advance t)).redis.clock =
        (holdSystem.run s before).world.redis.clock := by simp [World.exec, ht]
    rw [hs]
    exact not_lt.mp ht

theorem issues_request {r : RecoveryRequest} (hms : h.Permits moves) (hr : .start r ∈ moves) :
    Issues h.Kept h.Allows (fun _ => True) r.program := by
  cases r with
  | dequeueReady q c =>
    have ha : Ambient h.Allows := ⟨trivial, fun _ => trivial, fun _ => trivial⟩
    exact (q.issues_dequeueReady ha fun w hw => hw.early).void
  | tick rc scanned schedule =>
    obtain ⟨hag, httl⟩ := hms.ticks rc scanned schedule hr
    exact TaskReconciler.issues_tick_of_scope (tickScope hag httl) scanned schedule

theorem never_early (hw : h.Kept w) (hms : h.Permits moves) :
    ∀ t ∈ (holdSystem.run (Sys.init w) moves).trace, ∀ c, Step.handedOut t = some (c, h.taskId) →
      h.releaseMs ≤ toMs t.pre.redis.clock := by
  intro t ht c hou
  by_contra he
  have he := not_le.mp he
  rcases System.mem_trace ht with hn | ⟨before, m, after, rfl, hpre, hi⟩
  · cases hn
  -- up to this step the clock has not reached the release
  have ho (cmd : Command) (i : Fault) (hc : .env cmd i ∈ before) : h.Allows cmd := by
    rcases hms.others cmd i (mem_append_left _ hc) with ⟨t', rfl⟩ | ha
    · have hle := advance_le_run (Sys.init w) hc
      rw [hpre] at hle
      have hb := toMs_lt_iff.mp he
      exact toMs_lt_iff.mpr (by linarith)
    · exact ha
  obtain ⟨hk, hpr⟩ := System.run_invariant_of_moves (S := holdSystem) (J := fun _ => h.Kept)
    (fun _ _ hw => hw) (fun _ _ _ i hc hw => kept_apply i hw hc)
    (fun r hr => issues_request hms (mem_append_left _ hr)) ho
    (s := Sys.init w) (fun _ hp => absurd hp not_mem_nil) hw
  rw [hpre] at hk
  have hh : t.cmd.handsOut t.pre = some (c, h.taskId) := by
    unfold Step.handedOut at hou
    split at hou
    · exact hou
    · cases hou
  have ha : h.Allows t.cmd := by
    rcases hi with ⟨n, hac⟩ | ⟨e, i, rfl, hc⟩
    · exact (hpr _ hac).1
    · rcases hms.others e i (mem_append_right _ mem_cons_self) with ⟨t', rfl⟩ | ha
      · rw [hc] at hh
        cases hh
      · rw [hc]
        exact ha
  exact not_handsOut hk ha c hh

end Hold

/-- Neither a cached document nor a queue knows the task. -/
structure Unseen (taskId : String) (w : World) : Prop where
  docs : w.Docs fun doc => doc.idText ≠ taskId
  queues : ∀ c, taskId ∉ w.pending c

variable {cr : TaskCreator} {u : CreateInputs} {req : TaskCreate} {tenantId : String} {w w' : World} {h : Hold}

section
open TaskCreator TaskSubmissionService

theorem scoreTime_score {p ms : Int} {after : ℚ} (hno : 0 ≤ ms) (hl : (ms : ℚ) ≤ after)
    (hb : after < 10000000000000) : scoreTime (QueueManager.score p after ms) = after := by
  have hs : QueueManager.score p after ms = p * 10000000000000 + after := by
    unfold QueueManager.score
    split
    · rfl
    · linarith
  have hn : (0 : ℚ) ≤ after := le_trans (by exact_mod_cast hno) hl
  have hf : ⌊(p * 10000000000000 + after) / 10000000000000⌋ = p := by
    rw [Int.floor_eq_iff]
    constructor
    · rw [le_div_iff₀ (by norm_num)]
      linarith
    · rw [div_lt_iff₀ (by norm_num)]
      linarith
  rw [hs, scoreTime, hf]
  ring

theorem Hold.outlasts_arrival {deadline deadline' : Option ℚ} {ttl : Int} (httl : 2 * h.delay < ttl)
    (hn : KeyEvent.next deadline (.arrival h.since ttl) = some deadline') : h.Outlasts deadline' := by
  have hr := h.releaseMs_le
  have hd : (2 * h.delay + 1 : ℚ) ≤ ttl := by exact_mod_cast httl
  have hpos : (0 : ℚ) < h.delay := by exact_mod_cast h.delay_pos
  unfold KeyEvent.next at hn
  dsimp only at hn
  split at hn
  · split at hn
    · cases hn
      intro t ht
      obtain rfl := Option.some.inj ht
      linarith
    · cases hn
  · rename_i hfa
    cases hn
    intro t ht
    rw [ht] at hfa
    have hh : (ttl / 2 : ℚ) ≤ ⌊t - h.since + 1 / 2⌋ :=
      not_lt.mp fun hl => hfa (decide_eq_true (.inr hl))
    have hf := Int.floor_le (t - h.since + 1 / 2)
    linarith

theorem Hold.kept_enqueued {q : QueueManager} {score : ℚ} {doc : TaskDoc}
    (hr : w'.redis = q.enqueued h.capability h.taskId score
      (w.redis.set (taskKey h.taskId) (.task doc) (some 86400)))
    (hs : w.redis.clock = h.since) (hsc : scoreTime score = h.releaseMs) (hdo : h.Dated doc)
    (hunseen : Unseen h.taskId w) (hroom : q.HasRoom h.capability w.redis) (httl : 2 * h.delay < q.ttl)
    (hca : h.delay ≤ 86400) (hro : RowIs h.taskId (fun _ taskType => taskType = h.capability) w') :
    h.Kept w' := by
  have hc : w'.redis.clock = h.since := by
    rw [hr, clock_enqueued]
    exact hs
  have hw : Waits w' h.capability h.taskId
      (KeyEvent.next (w.redis.deadline (pending h.capability)) (.arrival h.since q.ttl)) := by
    have he := waits_enqueued (q := q)
      (w := w.onRedis (·.set (taskKey h.taskId) (.task doc) (some 86400))) h.taskId score hroom.1
    rw [← hs]
    revert he
    unfold Waits World.pending
    rw [hr]
    exact id
  obtain ⟨deadline, hde⟩ := Option.isSome_iff_exists.mp hroom.2
  rw [hs] at hde
  rw [hde] at hw
  refine
    { since_le := hc.ge
      early := ?_
      waits := hw.1
      scores := ?_
      outlasts := ?_
      cached := ?_
      dated := ?_
      row := hro }
  · rw [hc, releaseMs]
    have hpos := h.delay_pos
    omega
  · intro c score' hs'
    rw [hr] at hs'
    rcases zscore_enqueued _ _ _ hs' with hold | ⟨-, -, rfl⟩
    · exact absurd (SortedSet.mem_of_score hold) (hunseen.queues c)
    · exact hsc.ge
  · rw [hw.2]
    exact outlasts_arrival httl hde
  · refine ⟨doc, some (h.since + 86400), ?_, ?_⟩
    · rw [hr, strings_enqueued, (q.edits_probed h.capability _).strings
        (taskKey_notMem_breakerKeys h.taskId h.capability), Redis.strings_set, if_pos rfl, hs]
      rfl
    · intro t ht
      obtain rfl := Option.some.inj ht
      have hdel : (h.delay : ℚ) ≤ 86400 := by exact_mod_cast hca
      linarith [h.releaseMs_le]
  · intro k d hd
    rw [hr] at hd
    refine docs_set (some 86400) ?_ (fun k d hd heq => absurd heq (hunseen.docs k d hd)) k d
      (q.noNewDocs_enqueued h.capability h.taskId score _ k d hd)
    intro d hd
    cases hd
    exact hdo

theorem runWith_submit_new (hdb : cr.hasDb = true) (hfresh : FreshRequest u req tenantId w)
    (hstorable : req.Storable u tenantId) (hadmits : cr.queueManager.Admits req.taskType w.redis) :
    ∃ result w', (cr.createNew u tenantId (newTaskId u req.idempotencyKey) req.kwargs).runWith
        Command.apply .ok w = (.ok result, w') ∧
      (submit cr u req tenantId).runWith Command.apply .ok w = (.ok (answered tenantId result), w') := by
  obtain ⟨hv, hf⟩ := hstorable
  have hp : req.kwargs.persistToDb.getD true = true := rfl
  obtain ⟨result, w', hc⟩ := (createNew_returns_iff hdb hp u w).mpr
    ⟨ofValue_kwargs req, hf, hfresh.id.1, hadmits, fun _ h => nomatch h⟩
  obtain ⟨-, hok⟩ := createTask_returns_iff (u := u) hfresh.key hdb (capabilityName_kwargs req)
  exact ⟨result, w', hc, runWith_submit_ok hv ((hok result w').mpr hc)⟩

def TaskCreate.hold (req : TaskCreate) (u : CreateInputs) (w : World) (delay : Int)
    (hclock : 0 < w.redis.clock) (hdelay : 0 < delay) : Hold :=
  ⟨newTaskId u req.idempotencyKey, req.taskType, w.redis.clock, delay, hclock, hdelay⟩

section
variable (hdb : cr.hasDb = true) (hfresh : FreshRequest u req tenantId w)
  (hunseen : Unseen (newTaskId u req.idempotencyKey) w) (hstorable : req.Storable u tenantId)
  (hadmits : cr.queueManager.Admits req.taskType w.redis) (hroom : cr.queueManager.HasRoom req.taskType w.redis)
include hdb hfresh hunseen hstorable hadmits hroom

omit hdb hfresh hunseen hstorable hadmits hroom in
theorem afterMs_kwargs {delay : Int} (hd : 0 < delay) (hr : req.delaySeconds = some delay) (now : ℚ) :
    afterMs req.kwargs now = ((toMs now + 1000 * delay : Int) : ℚ) := by
  have hk : req.kwargs.delaySeconds = some (delay : ℚ) := by
    simp [TaskCreate.kwargs, hr, Option.filter, hd.ne']
  have hpos : (0 : ℚ) < delay := by exact_mod_cast hd
  unfold afterMs
  rw [hk]
  simp only [hpos, if_true]
  push_cast
  ring

theorem kept_submit {delay : Int} (hc : 0 < w.redis.clock) (hd : 0 < delay)
    (hre : req.delaySeconds = some delay) (hb : toMs w.redis.clock + 1000 * delay < 10000000000000)
    (httl : 2 * delay < cr.queueManager.ttl) (hca : delay ≤ 86400) :
    (req.hold u w delay hc hd).Kept ((submit cr u req tenantId).runWith Command.apply .ok w).2 := by
  obtain ⟨result, w', hcr, hsu⟩ := runWith_submit_new hdb hfresh hstorable hadmits
  have hp : req.kwargs.persistToDb.getD true = true := rfl
  obtain ⟨-, hr⟩ := redis_createNew hdb hp hcr
  have ha : Along Command.apply (fun _ => True) (fun r w' => r.taskId = newTaskId u req.idempotencyKey ∧
      Inserted req.kwargs (newTaskId u req.idempotencyKey) w')
      (cr.createNew u tenantId (newTaskId u req.idempotencyKey) req.kwargs) w :=
    along_createNew (fun _ _ _ _ => trivial) (fun _ _ => trivial) cr u hdb hp trivial
  obtain ⟨-, row, hro, -, ht⟩ := ha.runWith hcr
  have hs : scoreTime (QueueManager.score req.kwargs.priorityNumber (afterMs req.kwargs w.redis.clock)
      (toMs w.redis.clock)) = (req.hold u w delay hc hd).releaseMs := by
    have hn : 0 ≤ toMs w.redis.clock := Int.floor_nonneg.mpr (by positivity)
    rw [afterMs_kwargs hd hre, scoreTime_score hn]
    · rfl
    · exact_mod_cast (by omega : toMs w.redis.clock ≤ toMs w.redis.clock + 1000 * delay)
    · exact_mod_cast hb
  rw [hsu]
  exact Hold.kept_enqueued (h := req.hold u w delay hc hd) hr rfl hs (fun _ => rfl) hunseen
    hroom httl hca ⟨row, hro, ht⟩

omit hunseen in
/-- Without a delay the task can be handed out at once. -/
theorem dequeued_at_once (hd : req.delaySeconds = none) (hcl : 0 < w.redis.clock)
    (hb : toMs w.redis.clock < 10000000000000) (hem : ∀ y, y ∉ w.pending req.taskType)
    (q : QueueManager) (hl : q.scanLimit ≠ 0)
    (ha' : q.Admits req.taskType ((submit cr u req tenantId).runWith Command.apply .ok w).2.redis)
    (hs : q.HasSlot req.taskType ((submit cr u req tenantId).runWith Command.apply .ok w).2.redis) :
    ((q.dequeueReady req.taskType).runWith Command.apply .ok
      ((submit cr u req tenantId).runWith Command.apply .ok w).2).1 =
        .ok (some (newTaskId u req.idempotencyKey)) := by
  obtain ⟨result, w', hc, hsu⟩ := runWith_submit_new hdb hfresh hstorable hadmits
  have hp : req.kwargs.persistToDb.getD true = true := rfl
  obtain ⟨-, hr⟩ := redis_createNew hdb hp hc
  have hne : newTaskId u req.idempotencyKey ∉ w.pending req.kwargs.capabilityName := hfresh.id.2.2
  obtain ⟨-, hpe⟩ := pending_createNew hdb hp hne hc
  rw [hsu] at ha' hs ⊢
  have hc' : w'.redis.clock = w.redis.clock := by
    rw [hr, clock_enqueued]
    rfl
  have hn : 0 ≤ toMs w.redis.clock := Int.floor_nonneg.mpr (by positivity)
  have ha : afterMs req.kwargs w.redis.clock = 0 := by
    simp [afterMs, TaskCreate.kwargs, hd]
  have hsc : QueueManager.score req.kwargs.priorityNumber 0 (toMs w.redis.clock) =
      QueueManager.score req.kwargs.priorityNumber (toMs w.redis.clock) (toMs w.redis.clock) := by
    unfold QueueManager.score
    rw [if_neg (not_lt.mpr (by exact_mod_cast hn)), if_neg (lt_irrefl _)]
  rw [ha, hsc] at hr
  have ho : ∀ e ∈ (w'.redis.zsets (pending req.taskType)).entries, e = (newTaskId u req.idempotencyKey,
      QueueManager.score req.kwargs.priorityNumber (toMs w.redis.clock) (toMs w.redis.clock)) := by
    rintro ⟨y, score⟩ he
    have he : w'.redis.zscore (pending req.taskType) y = some score :=
      (SortedSet.score_eq_some_iff _ _ _).mpr he
    rw [hr] at he
    rcases zscore_enqueued _ _ _ he with hold | ⟨-, rfl, rfl⟩
    · exact absurd (SortedSet.mem_of_score hold) (hem y)
    · rfl
  have hre : scoreTime (QueueManager.score req.kwargs.priorityNumber (toMs w.redis.clock)
      (toMs w.redis.clock)) ≤ toMs w'.redis.clock := by
    rw [hc', scoreTime_score hn le_rfl (by exact_mod_cast hb)]
  exact q.dequeueReady_of_slot ha' hs
    (firstReady_only ho (hpe.mpr hroom) hre hl)

end

theorem delay_eq_none (hv : req.validate = .ok ()) (hs : req.scheduledAt.isSome = true) :
    req.delaySeconds = none := by
  cases hd : req.delaySeconds with
  | none => rfl
  | some delay =>
    have hr : validateTaskScheduling req.scheduledAt req.delaySeconds =
        .error (.valueError "Cannot specify both scheduled_at and delay_seconds; use only one.") := by
      rw [validateTaskScheduling, hd]
      exact if_pos ⟨hs, rfl⟩
    unfold TaskCreate.validate at hv
    rw [hr] at hv
    cases ha : validateTaskArtifact req.artifactUrl req.artifactSha256 with
    | error e =>
      rw [ha] at hv
      cases hv
    | ok _ =>
      rw [ha] at hv
      cases hv

end

open TaskCreator TaskSubmissionService

/-- A new task that is submitted undisturbed and enters its queue. If it has a delay that no queue
and no cached document is too short-lived for, then in every run of ticks whose age limit is not
below the delay, of dequeues and of commands about other tasks, it is not handed out before the
delay has passed, and no call of `dequeue_ready` that has returned it ended earlier. If it has a time
of day instead, it is handed out at once. -/
theorem scheduled_start (cr : TaskCreator) (u : CreateInputs) (req : TaskCreate) (tenantId : String) (w : World)
    (hdb : cr.hasDb = true) (hfresh : FreshRequest u req tenantId w)
    (hunseen : Unseen (newTaskId u req.idempotencyKey) w) (hstorable : req.Storable u tenantId)
    (hadmits : cr.queueManager.Admits req.taskType w.redis)
    (hroom : cr.queueManager.HasRoom req.taskType w.redis) (hclock : 0 < w.redis.clock) :
    let x := newTaskId u req.idempotencyKey
    let w' := ((submit cr u req tenantId).runWith Command.apply .ok w).2
    (∀ delay (hd : 0 < delay), req.delaySeconds = some delay →
      toMs w.redis.clock + 1000 * delay < 10000000000000 → 2 * delay < cr.queueManager.ttl → delay ≤ 86400 →
      ∀ moves, (req.hold u w delay hclock hd).Permits moves →
        (∀ t ∈ (Hold.holdSystem.run (Sys.init w') moves).trace, ∀ c, Step.handedOut t = some (c, x) →
          toMs w.redis.clock + 1000 * delay ≤ toMs t.pre.redis.clock) ∧
        ∀ (q : QueueManager) (c : String) (steps : List Step),
          steps ⊆ (Hold.holdSystem.run (Sys.init w') moves).trace → Steps (q.dequeueReady c) steps (.ret (some x)) →
            ∃ t ∈ steps, toMs w.redis.clock + 1000 * delay ≤ toMs t.pre.redis.clock) ∧
    (req.scheduledAt.isSome = true → toMs w.redis.clock < 10000000000000 →
      (∀ y, y ∉ w.pending req.taskType) →
      ∀ q : QueueManager, q.scanLimit ≠ 0 → q.Admits req.taskType w'.redis → q.HasSlot req.taskType w'.redis →
        ((q.dequeueReady req.taskType).runWith Command.apply .ok w').1 = .ok (some x)) := by
  intro x w'
  constructor
  · intro delay hd hr hb httl hc moves hm
    have hn := Hold.never_early (kept_submit hdb hfresh hunseen hstorable hadmits hroom hclock hd hr hb
      httl hc) hm
    refine ⟨hn, fun q c steps hs h => ?_⟩
    obtain ⟨first, t, rfl, ht⟩ := q.handedOut_of_returned h
    exact ⟨t, by simp, hn t (hs (by simp)) c ht⟩
  · intro hs hb he q hl ha' hsl
    exact dequeued_at_once hdb hfresh hstorable hadmits hroom (delay_eq_none hstorable.1 hs) hclock hb
      he q hl ha' hsl

/-- The first task of type `gpu` that a dequeue at an instant returns. -/
def World.dequeuedAt (w : World) (t : ℚ) : Except PyErr (Option String) :=
  ((QueueManager.dequeueReady {} "gpu").runWith Command.apply .ok (w.exec (.advance t))).1

/-- Due at the end of the year 2998, after one hour taken for stuck after 400 seconds, and after two
hours restored when its queue has expired. -/
theorem starts_early :
    let scheduled : TaskCreate := { taskType := "gpu", scheduledAt := some "2999-01-01T00:00:00" }
    let hour : TaskCreate := { taskType := "gpu", delaySeconds := some 3600 }
    let hours : TaskCreate := { taskType := "gpu", delaySeconds := some 7200 }
    let submitted := fun req : TaskCreate =>
      ((submit .plain .ones req "acme").runWith Command.apply .ok World.at1000).2
    (submitted scheduled).dequeuedAt 1000 = .ok (some Uuid.one.text) ∧
    ((submitted hour).tickedAt 1400 [Uuid.one.text]).dequeuedAt 1411 = .ok (some Uuid.one.text) ∧
    ((submitted hours).tickedAt 4700 []).dequeuedAt 4700 = .ok (some Uuid.one.text) := by
  decide +kernel

def TaskCreate.inAMinute : TaskCreate := { TaskCreate.gpu with delaySeconds := some 60 }

def inAMinuteMoves : List (Move RecoveryRequest Command Fault) :=
  .start (.tick .plain [Uuid.one.text] []) :: List.replicate 20 (.step 0 .ok) ++
    [.env (.advance 1061) .ok, .start (.dequeueReady {} "gpu"), .step 1 .ok, .step 1 .ok]

theorem scheduled_start_inAMinute :
    let submitted := ((submit .plain .ones .inAMinute "acme").runWith Command.apply .ok World.at1000).2
    (Hold.holdSystem.run (Sys.init submitted) inAMinuteMoves).trace.filterMap Step.handedOut =
      [("gpu", Uuid.one.text)] ∧
    ∀ t ∈ (Hold.holdSystem.run (Sys.init submitted) inAMinuteMoves).trace,
      ∀ c, Step.handedOut t = some (c, newTaskId .ones TaskCreate.inAMinute.idempotencyKey) →
        toMs World.at1000.redis.clock + 1000 * 60 ≤ toMs t.pre.redis.clock := by
  have he (c : String) (y : String) : y ∉ World.at1000.pending c := SortedSet.mem_empty y
  have hfresh : FreshRequest .ones .inAMinute "acme" World.at1000 :=
    ⟨⟨rfl, rfl, he _ _⟩, fun _ h => nomatch h⟩
  have hunseen : Unseen (newTaskId .ones TaskCreate.inAMinute.idempotencyKey) World.at1000 :=
    ⟨fun _ _ h => (nomatch h), fun c => he c _⟩
  have hstorable : TaskCreate.inAMinute.Storable .ones "acme" :=
    ⟨rfl, by decide, by decide, by decide, by decide, by decide⟩
  refine ⟨by decide +kernel, ((scheduled_start .plain .ones .inAMinute "acme" World.at1000 rfl hfresh hunseen hstorable
    (fun _ h => nomatch h) ⟨by decide +kernel, by decide +kernel⟩ (by decide +kernel)).1 60 (by decide) rfl
    (by decide +kernel) (by decide) (by decide) _ ⟨?_, ?_⟩).1⟩
  · intro rc scanned schedule hm
    simp only [inAMinuteMoves, List.mem_append, List.mem_replicate, List.mem_cons, Move.start.injEq,
      RecoveryRequest.tick.injEq, reduceCtorEq, List.not_mem_nil, or_false, and_false] at hm
    obtain ⟨rfl, -, -⟩ := hm
    refine ⟨by decide +kernel, fun q hq => ?_⟩
    cases hq
    decide
  · intro cmd i hm
    simp only [inAMinuteMoves, List.mem_append, List.mem_replicate, List.mem_cons, Move.env.injEq, reduceCtorEq,
      List.not_mem_nil, or_false, false_or, and_false] at hm
    exact .inl ⟨1061, hm.1⟩

end AsyncScheduler
