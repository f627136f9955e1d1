import AsyncScheduler.Platform.ReconcilerScope
import AsyncScheduler.Platform.TaskCreator
import AsyncScheduler.Platform.TaskExecutor
import AsyncScheduler.Services.TaskApplication

/-!
# Cancelled tasks

The cancel endpoint writes the database; an execution asks Redis.
-/

namespace AsyncScheduler
open List

variable {id : String} {w : World}

inductive WorkRequest where
  | dequeueReady (q : QueueManager) (capability : String)
  | execute (ex : TaskExecutor) (inputs : ExecInputs) (taskId : String)
      (dagDefinition : Option DagDefinition) (context : DispatchArg)
  | tick (rc : TaskReconciler) (scanned : List String) (schedule : List Nat)

def WorkRequest.program : WorkRequest → Py Unit
  | .dequeueReady q capability => (q.dequeueReady capability).void
  | .execute ex inputs taskId dagDefinition context =>
    (ex.execute inputs taskId dagDefinition context).void
  | .tick rc scanned schedule => rc.tick scanned schedule

def workSystem : System Command Fault World PyErr WorkRequest ℚ where
  apply := Command.apply
  program := WorkRequest.program
  ambient := .advance

/-- An execution of the task runs the DAG or returns `completed`. -/
def Mark.runs (id : String) : Mark → Bool
  | .dagStarted x _ => x = id
  | .executed x status => x = id ∧ status = .completed
  | _ => false

def Command.runs (id : String) : Command → Bool
  | .mark m => m.runs id
  | _ => false

def Step.runs (id : String) (t : Step) : Bool := t.cmd.runs id

def Blocked (id : String) (w : World) : Prop :=
  Holds (cancelKey id) (fun v => Blob.truthy (some v) = true) w ∨ Holds (lockKey id) (fun _ => True) w

def Harmless (id k : String) (P : Blob → Prop) (cmd : Command) : Prop :=
  (∀ i w, Holds k P w → Holds k P (cmd.apply i w)) ∧ cmd.runs id = false

section Harmless
variable {id k : String} {P : Blob → Prop}

theorem harmless_of_stringKeys {cmd : Command} (hk : k ∉ cmd.stringKeys) (hr : cmd.runs id = false) :
    Harmless id k P cmd := ⟨fun i _ h => holds_apply i hk h, hr⟩

theorem harmless_key {k' : String} (hk : k ≠ k') (op : KeyOp) : Harmless id k P (.keys [(k', op)]) :=
  harmless_of_stringKeys (by simpa [Command.stringKeys] using hk) rfl

theorem harmless_ambient (hf : Foreign k) : Ambient (Harmless id k P) where
  read := harmless_of_stringKeys not_mem_nil rfl
  breaker op := by
    refine harmless_of_stringKeys ?_ rfl
    cases op <;> exact hf.breakerKeys _
  register c := harmless_of_stringKeys not_mem_nil rfl

theorem harmless_tick {I : World → Prop} (hf : Foreign k) :
    TickAllowed I (Harmless id k P) (fun _ => True) (fun _ => True) where
  toAmbient := harmless_ambient hf
  rows _ _ _ _ := trivial
  docs _ _ _ _ _ := trivial
  leader op _ := harmless_key hf.leader op
  cache row _ := harmless_key (hf.task _) _
  restore _ _ _ _ := harmless_of_stringKeys not_mem_nil rfl
  repair _ := harmless_of_stringKeys not_mem_nil rfl
  transaction _ op _ := harmless_key (hf.tx _) op
  dedup _ := harmless_key (hf.dedup _) _
  bump _ := harmless_of_stringKeys not_mem_nil rfl
  requeue _ _ _ _ _ _ _ := harmless_of_stringKeys not_mem_nil rfl
  fail ops ho := by
    refine harmless_of_stringKeys (fun hk => ?_) rfl
    obtain ⟨op, hop, hko⟩ := mem_map.mp hk
    obtain ⟨x, t, _, rfl⟩ := ho op hop
    exact hf.task x hko.symm
  callback x _ _ := harmless_of_stringKeys (by simpa [Command.stringKeys] using hf.payload x) rfl

/-- As long as the key holds, no execution starts the task. -/
theorem never_runs (hf : Foreign k)
    (he : ∀ (ex : TaskExecutor) inputs taskId dagDefinition context,
      Issues (Holds k P) (Harmless id k P) (fun _ => True)
        (ex.execute inputs taskId dagDefinition context))
    {w : World} (hw : Holds k P w) (moves : List (Move WorkRequest ℚ Fault)) :
    ∀ t ∈ (workSystem.run (Sys.init w) moves).trace, Step.runs id t = false := by
  have hr := System.run_invariant (S := workSystem) (I := Holds k P) (C := Harmless id k P)
    (J := fun trace w => Holds k P w ∧ ∀ t ∈ trace, Step.runs id t = false) (fun _ _ h => h.1)
    ?_ ?_ (fun _ => harmless_of_stringKeys not_mem_nil rfl) (s := Sys.init w)
    (fun _ hp => absurd hp not_mem_nil) ⟨hw, fun _ ht => absurd ht not_mem_nil⟩ moves
  · exact hr.2
  · intro trace w c i hc ⟨hh, htr⟩
    exact ⟨hc.1 i w hh, forall_mem_cons.mpr ⟨hc.2, htr⟩⟩
  · intro request
    cases request with
    | dequeueReady q c =>
      exact (q.issues_dequeueReady (harmless_ambient hf) fun _ _ =>
        harmless_of_stringKeys not_mem_nil rfl).void
    | execute ex inputs taskId dagDefinition context =>
      exact (he ex inputs taskId dagDefinition context).void
    | tick rc scanned schedule => exact rc.issues_tick (harmless_tick hf) scanned schedule

theorem harmless_execution {taskId : String} {dagDefinition : Option DagDefinition}
    (hl : ∀ op, Harmless id k P (.keys [(lockKey taskId, op)])) (hr : Harmless id k P .read)
    (hf : taskId = id → ∀ w, Holds k P w → Blob.truthy (w.redis.get (cancelKey taskId)) = true) :
    ExecAllowed (Holds k P) (Harmless id k P) taskId dagDefinition where
  read := hr
  memory _ := harmless_of_stringKeys not_mem_nil rfl
  renew _ _ := hl _
  release _ := hl _
  announced _ := harmless_of_stringKeys not_mem_nil rfl
  started w hw hc := by
    refine harmless_of_stringKeys not_mem_nil (decide_eq_false fun hid => ?_)
    rw [hf hid w hw] at hc
    cases hc
  executed status hs := by
    refine harmless_of_stringKeys not_mem_nil (decide_eq_false ?_)
    rintro ⟨hid, hco⟩
    obtain ⟨w, hw, hc⟩ := hs hco
    rw [hf hid w hw] at hc
    cases hc

end Harmless

theorem flagged_never_runs (hw : Holds (cancelKey id) (fun v => Blob.truthy (some v) = true) w)
    (moves : List (Move WorkRequest ℚ Fault)) :
    ∀ t ∈ (workSystem.run (Sys.init w) moves).trace, Step.runs id t = false := by
  refine never_runs (foreign_cancelKey id) (fun ex inputs taskId dagDefinition context => ?_) hw moves
  have hl (op : KeyOp) : Harmless id (cancelKey id) (fun v => Blob.truthy (some v) = true)
      (.keys [(lockKey taskId, op)]) := harmless_key (cancelKey_ne_lockKey id taskId) op
  refine ex.issues_execute inputs context (fun _ _ => hl _) fun _ _ _ => ?_
  refine harmless_execution hl (harmless_of_stringKeys not_mem_nil rfl) ?_
  rintro rfl w' ⟨v, hv, ht⟩
  rwa [Redis.get, hv]

theorem locked_never_runs (hw : Holds (lockKey id) (fun _ => True) w) (moves : List (Move WorkRequest ℚ Fault)) :
    ∀ t ∈ (workSystem.run (Sys.init w) moves).trace, Step.runs id t = false := by
  refine never_runs (foreign_lockKey id) (fun ex inputs taskId dagDefinition context => ?_) hw moves
  by_cases hid : taskId = id
  · subst hid
    refine ex.issues_execute inputs context (fun v seconds => ⟨?_, rfl⟩) ?_
    · -- `SET NX` on a key that exists changes nothing
      intro i w' hh
      unfold Command.apply
      split
      · obtain ⟨u, hu, _⟩ := hh
        refine ⟨u, ?_, trivial⟩
        simp [World.exec, World.onRedis, World.runKeys, KeyOp.exec, Redis.setNx, Redis.existsKey, hu]
      · exact hh
    · rintro w' ⟨u, hu, _⟩ hf
      simp [Redis.existsKey, hu] at hf
  · have hne : lockKey id ≠ lockKey taskId := fun h => hid (lockKey_eq_lockKey.mp h).symm
    refine ex.issues_execute inputs context (fun _ _ => harmless_key hne _) fun _ _ _ => ?_
    exact harmless_execution (harmless_key hne) (harmless_of_stringKeys not_mem_nil rfl)
      fun h => absurd h hid

theorem execute_starts (hl : w.redis.existsKey (lockKey id) = false)
    (hc : Blob.truthy (w.redis.get (cancelKey id)) = false) (dagDefinition : Option DagDefinition)
    (context : DispatchArg) :
    ∃ w', ⟨.mark (.dagStarted id dagDefinition), .ok, w'⟩ ∈
      (TaskExecutor.idle.execute ⟨.one, [], []⟩ id dagDefinition context).transitions
        Command.apply .ok w := by
  have hk (v : Blob) (seconds : ℚ) (op : MemoryOp) :
      ((w.exec (.keys [(lockKey id, .setNx v seconds)])).exec (.memory op)).redis.get (cancelKey id) =
        w.redis.get (cancelKey id) := by
    rw [redis_memory]
    exact congrArg (Option.map Prod.fst) (Redis.strings_setNx_of_ne _ _ _ v seconds (cancelKey_ne_lockKey id id))
  unfold TaskExecutor.execute
  apply Exists.intro
  refine Prog.mem_transitions_bind (runWith_await ..) ?_
  rw [if_pos (by rw [hl]; rfl)]
  refine Prog.mem_transitions_bind (runWith_immediately ..) ?_
  refine Prog.mem_transitions_bind_left (Prog.mem_transitions_bind_left ?_)
  refine Prog.mem_transitions_settle rfl (Prog.mem_transitions_handle ?_)
  refine Prog.mem_transitions_bind (runWith_query ..) ?_
  rw [hk, if_neg (by simp [hc])]
  exact Prog.mem_transitions_bind_left mem_cons_self

def deadlineOr (r : Store) (k : String) : ℚ := ((r.strings k).bind Prod.snd).getD r.clock

theorem strings_advance_deadline {r : Store} {k : String} {t : ℚ} (ht : deadlineOr r k ≤ t) :
    (r.advance t).strings k = none ∨ ∃ v, r.strings k = some (v, none) ∧ (r.advance t).strings k = some (v, none) := by
  cases hk : r.strings k with
  | none => exact .inl (by simp [Redis.advance, hk])
  | some e =>
    obtain ⟨v, d⟩ := e
    cases d with
    | none => exact .inr ⟨v, rfl, by simp [Redis.advance, hk, Redis.live]⟩
    | some d =>
      refine .inl ?_
      have hd : d ≤ t := by simpa [deadlineOr, hk] using ht
      simp [Redis.advance, hk, Redis.live, hd]

theorem unblocked_after (h : ¬ Blocked id w) : ∃ t,
    (w.exec (.advance t)).redis.existsKey (lockKey id) = false ∧
      Blob.truthy ((w.exec (.advance t)).redis.get (cancelKey id)) = false := by
  have hc : ¬ Holds (cancelKey id) (fun v => Blob.truthy (some v) = true) w := fun h' => h (.inl h')
  have hl : ¬ Holds (lockKey id) (fun _ => True) w := fun h' => h (.inr h')
  refine ⟨max (w.redis.clock + 1) (max (deadlineOr w.redis (lockKey id)) (deadlineOr w.redis (cancelKey id))),
    ?_⟩
  generalize ht : max (w.redis.clock + 1)
    (max (deadlineOr w.redis (lockKey id)) (deadlineOr w.redis (cancelKey id))) = t
  have hcl : w.redis.clock < t := by
    rw [← ht]
    exact lt_of_lt_of_le (by simp) (le_max_left _ _)
  have ha : (w.exec (.advance t)).redis = w.redis.advance t := by
    simp [World.exec, hcl, World.onRedis]
  rw [ha]
  constructor
  · rcases strings_advance_deadline (r := w.redis) (k := lockKey id) (t := t) (by rw [← ht]; simp) with
      hn | ⟨v, hv, _⟩
    · simp [Redis.existsKey, hn]
    · exact absurd ⟨v, hv, trivial⟩ hl
  · rcases strings_advance_deadline (r := w.redis) (k := cancelKey id) (t := t) (by rw [← ht]; simp) with
      hn | ⟨v, hv, hv'⟩
    · simp [Redis.get, hn, Blob.truthy]
    · rw [Redis.get, hv']
      exact Bool.eq_false_iff.mpr fun htr => hc ⟨v, hv, htr⟩

theorem cancel_redis (taskId tenantId : String) (isSuperAdmin : Bool) (w : World) :
    ((TaskCancellationService.cancel taskId tenantId isSuperAdmin).runWith Command.apply .ok w).2.redis =
      w.redis := by
  have hi : Issues (fun w' => w'.redis = w.redis)
      (fun c => c = .read ∨ ∃ writes, c = .commit writes) (fun _ => True)
      (TaskCancellationService.cancel taskId tenantId isSuperAdmin) := by
    refine Issues.bind (Q := fun _ => True) (issues_await (.inl rfl) fun _ _ _ _ => trivial)
      fun task _ => ?_
    dsimp only
    split
    · trivial
    · split
      · trivial
      · exact (issues_await (.inr ⟨_, rfl⟩) fun _ _ _ _ => trivial).bind fun _ _ => trivial
  refine (hi.runWith ?_ rfl).1
  rintro _ w' (rfl | ⟨writes, rfl⟩) hw'
  · exact hw'
  · rw [apply_ok, World.exec]
    split <;> exact hw'

/-- After a cancel that returned `cancelled=True` the task never runs, in any interleaving of
dequeues, executions and ticks, exactly when it was blocked before the cancel. -/
theorem cancelled_never_runs_iff (w₀ w : World) (id tenantId : String) (isSuperAdmin : Bool) (prior : TaskStatus)
    (hcancel : (TaskCancellationService.cancel id tenantId isSuperAdmin).runWith Command.apply .ok w₀ =
      (.ok ⟨id, true, prior⟩, w)) :
    (∀ moves, ∀ t ∈ (workSystem.run (Sys.init w) moves).trace, Step.runs id t = false) ↔
      Blocked id w₀ := by
  have hr : w.redis = w₀.redis := by
    rw [← cancel_redis id tenantId isSuperAdmin w₀, hcancel]
  have hb : Blocked id w₀ ↔ Blocked id w := by
    unfold Blocked Holds
    rw [hr]
  rw [hb]
  constructor
  · intro hn
    by_contra hfr
    obtain ⟨t, hl, hf⟩ := unblocked_after hfr
    obtain ⟨w', hs⟩ := execute_starts hl hf none (.function "")
    obtain ⟨ms, _, _, ht⟩ := System.run_request (S := workSystem) .ok
      (.execute .idle ⟨.one, [], []⟩ id none (.function "")) (w.exec (.advance t)) [⟨.advance t, .ok, w⟩]
    have hm := hn (.env t .ok :: ms) ⟨.mark (.dagStarted id none), .ok, w'⟩ (by
        refine ht ▸ List.mem_append_left _ (List.mem_reverse.mpr ?_)
        exact Prog.mem_transitions_bind_left hs)
    simp [Step.runs, Command.runs, Mark.runs] at hm
  · rintro (hh | hh) moves
    · exact flagged_never_runs hh moves
    · exact locked_never_runs hh moves

def cancelOneTask : Except PyErr TaskCancelResponse × World :=
  (TaskCancellationService.cancel Uuid.one.text "acme" false).runWith Command.apply .ok .oneTask

def runAfterCancel : List (Move WorkRequest ℚ Fault) :=
  [.env 1000 .ok, .start (.dequeueReady {} "gpu"), .step 0 .ok, .step 0 .ok,
    .start (.execute .idle ⟨.one, [], []⟩ Uuid.one.text (some ⟨"d", "acme", [], none⟩) (.function "f"))] ++
    List.replicate 9 (.step 1 .ok)

theorem runAfterCancel_completes :
    cancelOneTask.1 = .ok ⟨Uuid.one.text, true, .queued⟩ ∧
    (∃ t ∈ (workSystem.run (Sys.init cancelOneTask.2) runAfterCancel).trace,
      Step.handedOut t = some ("gpu", Uuid.one.text)) ∧
    (∃ t ∈ (workSystem.run (Sys.init cancelOneTask.2) runAfterCancel).trace,
      t.cmd = .mark (.dagStarted Uuid.one.text (some ⟨"d", "acme", [], none⟩))) ∧
    ∃ t ∈ (workSystem.run (Sys.init cancelOneTask.2) runAfterCancel).trace,
      t.cmd = .mark (.executed Uuid.one.text .completed) := by
  decide +kernel

theorem cancelled_never_runs_iff_oneTask :
    cancelOneTask.1 = .ok ⟨Uuid.one.text, true, .queued⟩ ∧
    ((∀ moves, ∀ t ∈ (workSystem.run (Sys.init cancelOneTask.2) moves).trace,
        Step.runs Uuid.one.text t = false) ↔ Blocked Uuid.one.text .oneTask) := by
  have hc : cancelOneTask.1 = .ok ⟨Uuid.one.text, true, .queued⟩ := by decide +kernel
  exact ⟨hc, cancelled_never_runs_iff .oneTask cancelOneTask.2 _ "acme" false .queued
    (Prod.ext hc rfl)⟩

end AsyncScheduler
