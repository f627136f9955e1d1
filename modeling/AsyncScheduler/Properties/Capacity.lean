import AsyncScheduler.Platform.QueueEffects
import AsyncScheduler.Platform.RowEffects
import AsyncScheduler.Platform.TaskExecutor

/-!
# Running capacity

Consumers dequeue and execute tasks while other clients call the queue manager.
-/

namespace AsyncScheduler
open QueueKeys Redis

inductive ConsumerStep where
  | tryDequeue (co : TaskConsumer) (capability : String)
  | executeTask (co : TaskConsumer) (inputs : ExecInputs) (taskId capability : String)

def ConsumerStep.program : ConsumerStep → Py Unit
  | .tryDequeue co capability => (co.tryDequeue capability).void
  | .executeTask co inputs taskId capability => co.executeTask inputs taskId capability

inductive WorkerClient where
  | consumer (step : ConsumerStep)
  | call (request : QueueCall)

def WorkerClient.program : WorkerClient → Py Unit
  | .consumer step => step.program
  | .call request => request.program

def workerSystem : System Command Fault World PyErr WorkerClient ℚ where
  apply := Command.apply
  program := WorkerClient.program
  ambient := .advance

def World.Lasting (w : World) (c : String) : Prop := w.redis.deadline (QueueKeys.running c) = none

def Step.frees (c x : String) (t : Step) : Bool := t.applied && t.cmd.frees t.pre c x

section
variable {w : World} {c x : String}

theorem lasting_putZset (h : w.Lasting c) (k : String) (z : ZSet) :
    (w.redis.putZset k z).deadline (running c) = none := by
  rw [deadline_putZset]
  split
  · rename_i hk
    split
    · rfl
    · rw [← hk]
      exact h
  · exact h

/-- No command gives a lasting running set a deadline. -/
theorem lasting_exec (cmd : Command) (h : w.Lasting c) : (w.exec cmd).Lasting c := by
  have hrp (c' : String) : running c ≠ pending c' := (pending_ne_running c' c).symm
  by_cases hq : ∀ op, cmd ≠ .queue op
  · rcases exec_of_not_queue w cmd (running c) (running_notMem_callbackSets c) hq with
      ⟨hz, he⟩ | ⟨t, _, _, hre⟩
    · rw [World.Lasting, deadline, hz, he]
      exact h
    · rw [World.Lasting, hre, deadline, zsets_advance]
      by_cases hl : live t (w.redis.zexpire (running c))
      · rw [if_pos hl]
        split
        · rfl
        · rename_i hc
          have hn : w.redis.zexpire (running c) = none := by
            rwa [World.Lasting, deadline, if_neg hc] at h
          change (w.redis.zexpire (running c)).filter (t < ·) = none
          rw [hn]
          rfl
      · rw [if_neg hl]
        rfl
  · obtain ⟨op, rfl⟩ := not_forall_not.mp hq
    change (op.exec w.redis).deadline (running c) = none
    cases op with
    | enqueue c' y sc depth ttl =>
      rw [QueueOp.exec, deadline_luaEnqueue_of_ne _ _ _ _ _ _ _ (hrp c')]
      exact h
    | dequeueReady c' mc nowMs limit =>
      rcases luaDequeueReady_cases w.redis c' mc nowMs limit with ⟨_, hr⟩ | ⟨y, _, _, hr⟩
      · rw [QueueOp.exec, hr]
        exact h
      · rw [QueueOp.exec, hr, deadline_of_sorted (sorted_hincrby ..), deadline_zadd]
        exact lasting_putZset h _ _
    | cancel c' y =>
      unfold QueueOp.exec luaCancel
      dsimp only
      split <;> exact lasting_putZset h _ _
    | complete c' y counter | releaseRunning c' y | removeStale c' ys => exact lasting_putZset h _ _
    | register c' => exact h
    | restore c' y sc => exact lasting_putZset h _ _

theorem lasting_step {t : Step} (h : t.pre.Lasting c) : t.post.Lasting c := by
  rw [Step.post_eq]
  split
  · exact lasting_exec t.cmd h
  · exact h

/-- A running entry comes from a hand-out and goes with what frees it. -/
theorem mem_running_step {t : Step} (h : t.pre.Lasting c) : x ∈ t.post.running c ↔
      t.handedOut = some (c, x) ∨ (x ∈ t.pre.running c ∧ t.frees c x = false) := by
  rw [Step.post_eq, Step.handedOut, Step.frees]
  by_cases ha : t.applied
  · simp only [ha, if_true, Bool.true_and]
    rw [mem_running_exec_iff]
    refine or_congr_right (and_congr_right fun hx => and_iff_left ?_)
    have hexpire : t.pre.redis.zexpire (running c) = none := by
      rw [← deadline_of_mem hx]
      exact h
    unfold Command.expires
    split
    · simp [hexpire, live]
    · rfl
  · simp [ha]

end

/-- `_execute_task` for the task has ended in one of the steps. -/
def Ended (c x : String) (steps : List Step) : Prop := ∃ u ∈ steps, u.cmd = .mark (.taskEnded c x)

instance (c x : String) (steps : List Step) : Decidable (Ended c x steps) :=
  inferInstanceAs (Decidable (∃ u ∈ steps, u.cmd = .mark (.taskEnded c x)))

/-- In every run, after the last hand-out of a task: that its running entry is given back once
its execution has ended amounts to some queue operation of another client having removed it. -/
theorem running_released_iff (w : World) (hlasting : ∀ c, w.Lasting c)
    (moves : List (Move WorkerClient ℚ Fault)) (c x : String) (later earlier : List Step) (t : Step)
    (htrace : (workerSystem.run (Sys.init w) moves).trace = later ++ t :: earlier)
    (hout : t.handedOut = some (c, x)) (hlast : ∀ u ∈ later, Step.handedOut u ≠ some (c, x)) :
    (Ended c x later → x ∉ (workerSystem.run (Sys.init w) moves).world.running c) ↔
      (Ended c x later → ∃ u ∈ later, u.frees c x = true) := by
  have hr := System.run_keeps (S := workerSystem)
    (J := fun tr w => (∀ c, w.Lasting c) ∧ ∀ later t earlier, tr = later ++ t :: earlier →
      Step.handedOut t = some (c, x) → (∀ u ∈ later, Step.handedOut u ≠ some (c, x)) →
        (x ∈ w.running c ↔ ∀ u ∈ later, u.frees c x = false)) ?_ ⟨hlasting, ?_⟩ moves
  · rw [hr.2 later t earlier htrace hout hlast]
    simp
  · rintro tr w cmd i ⟨hlasting, ih⟩
    have hs := mem_running_step (t := ⟨cmd, i, w⟩) (x := x) (hlasting c)
    refine ⟨fun c => lasting_step (t := ⟨cmd, i, w⟩) (hlasting c), ?_⟩
    intro later t earlier htr hout hlast
    cases later with
    | nil =>
      cases htr
      exact ⟨fun _ u hu => absurd hu List.not_mem_nil, fun _ => hs.mpr (.inl hout)⟩
    | cons u later =>
      cases htr
      have hu := hlast _ List.mem_cons_self
      have ih' := ih later t earlier rfl hout fun v hv => hlast v (List.mem_cons_of_mem _ hv)
      rw [List.forall_mem_cons, and_comm, ← ih']
      exact hs.trans (or_iff_right hu)
  · intro later t earlier htr
    exact absurd htr (by simp)

def consumeOne : List (Move WorkerClient ℚ Fault) :=
  let co : TaskConsumer := ⟨0, {}, TaskExecutor.idle⟩
  [.env 1000 .ok, .start (.call (.enqueue {} "gpu" "t1" 3 0)), .step 0 .ok, .step 0 .ok, .step 0 .ok,
    .start (.consumer (.tryDequeue co "gpu")), .step 1 .ok, .step 1 .ok, .step 1 .ok,
    .start (.consumer (.executeTask co ⟨Uuid.one, [], []⟩ "t1" "gpu"))] ++
    List.replicate 9 (.step 2 .ok)

theorem consumeOne_keeps_entry : Ended "gpu" "t1" (workerSystem.run (Sys.init World.empty) consumeOne).trace ∧
      "t1" ∈ (workerSystem.run (Sys.init World.empty) consumeOne).world.running "gpu" := by
  decide +kernel

theorem running_released_iff_consumeOne : ∃ later t earlier,
    (workerSystem.run (Sys.init World.empty) consumeOne).trace = later ++ t :: earlier ∧
    Ended "gpu" "t1" later ∧
    ((Ended "gpu" "t1" later →
        "t1" ∉ (workerSystem.run (Sys.init World.empty) consumeOne).world.running "gpu") ↔
      (Ended "gpu" "t1" later → ∃ u ∈ later, Step.frees "gpu" "t1" u = true)) := by
  have hs := eq_around (l := (workerSystem.run (Sys.init World.empty) consumeOne).trace) 9 (by decide +kernel)
  have ho : Step.handedOut ((workerSystem.run (Sys.init World.empty) consumeOne).trace.get
      ⟨9, by decide +kernel⟩) = some ("gpu", "t1") := by decide +kernel
  have hl : ∀ u ∈ (workerSystem.run (Sys.init World.empty) consumeOne).trace.take 9,
      Step.handedOut u ≠ some ("gpu", "t1") := by decide +kernel
  exact ⟨_, _, _, hs, by decide +kernel, running_released_iff World.empty (fun _ => rfl)
    consumeOne "gpu" "t1" _ _ _ hs ho hl⟩

def consumerSystem : System Command Fault World PyErr ConsumerStep ℚ where
  apply := Command.apply
  program := ConsumerStep.program
  ambient := .advance

def Command.isCommit : Command → Bool
  | .commit _ => true
  | _ => false

def Command.Keeps (cmd : Command) : Prop := ∀ w c x, (cmd.isCommit || cmd.frees w c x) = false

theorem ambient_keeps : Ambient Command.Keeps :=
  ⟨fun _ _ _ => rfl, fun _ _ _ _ => rfl, fun _ _ _ _ => rfl⟩

theorem ConsumerStep.issues (step : ConsumerStep) :
    Issues (fun _ => True) Command.Keeps (fun _ => True) step.program := by
  cases step with
  | tryDequeue co capability =>
    refine Issues.void (Q := fun _ => True) ?_
    unfold TaskConsumer.tryDequeue
    refine (issues_immediately (Q := fun _ => True) (fun _ _ _ => rfl) fun _ _ => trivial).bind
      fun acquired _ => ?_
    split
    · refine Issues.bind (Q := fun _ => True) (Issues.handle ?_ fun e => ?_) fun got _ => ?_
      · exact (co.queue.issues_dequeueReady ambient_keeps fun _ _ _ _ _ => rfl).bind fun _ _ => trivial
      · refine (issues_immediately (Q := fun _ => True) (fun _ _ _ => rfl) fun _ _ => trivial).bind
          fun _ _ => ?_
        split <;> trivial
      · split
        · trivial
        · exact (issues_immediately (Q := fun _ => True) (fun _ _ _ => rfl) fun _ _ => trivial).bind
            fun _ _ => trivial
        · trivial
    · trivial
  | executeTask co inputs taskId capability =>
    have ha : ExecAllowed (fun _ => True) Command.Keeps taskId none := by
      constructor <;> intros <;> exact fun _ _ _ => rfl
    have he : Issues (fun _ => True) Command.Keeps (fun _ => True) (do
        memory (.releasePermit co.id)
        mark (.taskEnded capability taskId)) :=
      (issues_immediately (Q := fun _ => True) (fun _ _ _ => rfl) fun _ _ => trivial).bind fun _ _ =>
        issues_immediately (fun _ _ _ => rfl) fun _ _ => trivial
    refine Issues.ensure (issues_exceptException ?_ fun _ => trivial) (fun _ _ => he) fun _ => he
    exact (co.executor.issues_execute inputs _ (fun _ _ _ _ _ => rfl) fun _ _ _ => ha).void

/-- When only consumers act, the database stays as it is and nothing leaves the running set: it holds what it held
and what was handed out. -/
theorem consumers_only_take (w : World) (hl : ∀ c, w.Lasting c) (moves : List (Move ConsumerStep ℚ Fault)) :
    let s := consumerSystem.run (Sys.init w) moves
    s.world.db = w.db ∧ ∀ c x, x ∈ s.world.running c ↔
      x ∈ w.running c ∨ ∃ t ∈ s.trace, Step.handedOut t = some (c, x) := by
  refine (System.run_invariant (S := consumerSystem) (I := fun _ => True) (C := Command.Keeps)
    (J := fun tr w' => (∀ c, w'.Lasting c) ∧ w'.db = w.db ∧ ∀ c x, x ∈ w'.running c ↔
      x ∈ w.running c ∨ ∃ t ∈ tr, Step.handedOut t = some (c, x))
    (fun _ _ _ => trivial) ?_ ConsumerStep.issues (fun _ _ _ _ => rfl) (s := Sys.init w)
    (fun _ hp => absurd hp List.not_mem_nil) ⟨hl, rfl, by simp [Sys.init]⟩ moves).2
  rintro tr w' cmd i hk ⟨hl, hdb, ih⟩
  let t : Step := ⟨cmd, i, w'⟩
  refine ⟨fun c => lasting_step (t := t) (hl c), ?_, fun c x => ?_⟩
  · change t.post.db = w.db
    rw [Step.post_eq]
    split
    · rcases db_exec w' cmd with h | ⟨_, _, rfl, _⟩
      · exact h.trans hdb
      · cases hk w' "" ""
    · exact hdb
  · have hf : t.frees c x = false := by rw [Step.frees, (Bool.or_eq_false_iff.mp (hk w' c x)).2, Bool.and_false]
    refine (mem_running_step (t := t) (hl c)).trans ?_
    rw [and_iff_left hf, ih, List.exists_mem_cons_iff]
    exact or_left_comm

theorem consumers_only_take_gpu :
    "t1" ∈ (consumerSystem.run (Sys.init (World.empty.onRedis (·.zadd (pending "gpu") 0 "t1")))
      (.start (.tryDequeue ⟨0, {}, .idle⟩ "gpu") :: List.replicate 3 (.step 0 .ok))).world.running "gpu" := by
  refine ((consumers_only_take _ (fun _ => by exact lasting_putZset (w := World.empty) rfl _ _) _).2 _ _).mpr (.inr ?_)
  exact ⟨_, List.get_mem _ ⟨0, by decide +kernel⟩, by decide +kernel⟩

end AsyncScheduler
