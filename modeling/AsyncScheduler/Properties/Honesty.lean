import AsyncScheduler.Platform.TaskCreator
import AsyncScheduler.Platform.TaskExecutor

/-!
# What an execution reports about its DAG

The executor reports `completed` whenever the engine returns a context, and does not look at the
status of the context. The consumer calls it without a definition, so the engine it calls never
returns one.
-/

namespace AsyncScheduler

def DispatchArg.isFunction : DispatchArg → Bool
  | .function _ => true
  | .taskData _ _ => false

/-- The result of a call is honest about the task's own DAG: it is `completed` exactly when the
engine ran that DAG with a dispatch function and returned `COMPLETED`, and `failed` when the
engine returned `FAILED`. -/
def Honest (own : DagDefinition) (dagDefinition : Option DagDefinition) (context : DispatchArg)
    (r : ExecResult) : Prop :=
  (r.status = .completed ↔ dagDefinition = some own ∧ context.isFunction ∧
    ∃ ctx, r.dagResult = some ctx ∧ ctx.status = .completed) ∧
  ∀ ctx, r.dagResult = some ctx → ctx.status = .failed → r.status = .failed

def Reports (ran : DagContext → Prop) (r : ExecResult) : Prop :=
  (r.status = .completed ∧ ∃ ctx, r.dagResult = some ctx ∧ ran ctx) ∨
    (r.status ≠ .completed ∧ r.dagResult = none)

section
variable {ex : TaskExecutor} {engine : DagEngine} (hengine : ex.dag = some engine) (inputs : ExecInputs)
  (taskId : String) (dagDefinition : Option DagDefinition) (context : DispatchArg)
include hengine

theorem body_reports (schedules : List (List Nat)) {C : Command → Prop} (hr : C .read)
    (hs : C (.mark (.dagStarted taskId dagDefinition))) :
    Issues (fun _ => True) C (Reports (engine.execute schedules dagDefinition context).Yields)
      (ex.body schedules taskId dagDefinition context) := by
  refine issues_exceptException ?_ fun e => .inr ⟨by simp, rfl⟩
  refine (issues_query (Q := fun _ => True) hr fun _ _ => trivial).bind fun cancelled _ => ?_
  split
  · exact .inr ⟨by simp, rfl⟩
  · rw [hengine]
    refine (issues_immediately (Q := fun _ => True) hs fun _ _ => trivial).bind fun _ _ => ?_
    exact (engine.issues_execute schedules dagDefinition context hr).self.bind
      fun ctx hc => .inl ⟨rfl, ctx, rfl, hc⟩

/-- An execution that says completed returns what its engine did. -/
theorem execute_reports {r : ExecResult} (hr : (ex.execute inputs taskId dagDefinition context).Yields r) :
    Reports (engine.execute inputs.schedules dagDefinition context).Yields r := by
  refine Issues.yields hr ?_
  unfold TaskExecutor.execute
  refine Issues.bind (Q := fun _ => True) (issues_await trivial fun _ _ _ _ => trivial) fun acquired _ => ?_
  split
  · refine (issues_immediately (Q := fun _ => True) trivial fun _ _ => trivial).bind fun _ _ => ?_
    refine (Issues.withBackground (Issues.top _) (body_reports hengine taskId dagDefinition context
      inputs.schedules trivial trivial)).bind fun ⟨outcome, renewal⟩ ho => ?_
    dsimp only
    refine (Issues.top _).bind fun _ _ => ?_
    cases outcome with
    | ok result =>
      exact (issues_immediately (Q := fun _ => True) trivial fun _ _ => trivial).bind
        fun _ _ => ho.1
    | error e => trivial
  · trivial

omit hengine in
theorem Reports.completed_iff {ran : DagContext → Prop} {r : ExecResult} (h : Reports ran r) :
    r.status = .completed ↔ ∃ ctx, r.dagResult = some ctx ∧ ran ctx := by
  rcases h with ⟨hs, hctx⟩ | ⟨hs, hn⟩
  · exact iff_of_true hs hctx
  · refine iff_of_false hs ?_
    rintro ⟨ctx, hctx, -⟩
    rw [hn] at hctx
    cases hctx

/-- What the consumer's own call returns is honest about the task's DAG, whichever that is; and every
call reports `completed` exactly when the engine, on the arguments of the call, returned a context. -/
theorem consumer_outcome_honest (own : DagDefinition) (capability : String) :
    (∀ r, (ex.execute inputs taskId none (.taskData taskId capability)).Yields r →
      Honest own none (.taskData taskId capability) r) ∧
    ∀ dagDefinition context r, (ex.execute inputs taskId dagDefinition context).Yields r →
      (r.status = .completed ↔
        ∃ ctx, r.dagResult = some ctx ∧ (engine.execute inputs.schedules dagDefinition context).Yields ctx) := by
  refine ⟨fun r hr => ?_, fun dagDefinition context r hr =>
    (execute_reports hengine inputs taskId dagDefinition context hr).completed_iff⟩
  rcases execute_reports hengine inputs taskId none _ hr with ⟨_, ctx, _, hra⟩ | ⟨hs, hn⟩
  · -- without a definition the engine raises and returns no context
    cases hra
  · refine ⟨iff_of_false hs (by simp), fun ctx hctx => ?_⟩
    rw [hn] at hctx
    cases hctx

/-- The consumer's own call has no definition to run: it never reports `completed`. -/
theorem consumer_never_completes {capability : String} {r : ExecResult}
    (hr : (ex.execute inputs taskId none (.taskData taskId capability)).Yields r) :
    r.status ≠ .completed ∧ r.dagResult = none := by
  rcases execute_reports hengine inputs taskId none _ hr with ⟨_, ctx, _, hra⟩ | h
  · cases hra
  · exact h

end

def failingExecutor : TaskExecutor :=
  { TaskExecutor.idle with dag := some ⟨fun _ _ => .raise (.runtimeError "step failed")⟩ }

def oneStepDag : DagDefinition := { dagId := "d", steps := [{ stepName := "s", capability := "gpu" }] }

def takeOneTask : Except PyErr (Option String) × World :=
  (TaskConsumer.tryDequeue ⟨0, {}, failingExecutor⟩ "gpu").runWith Command.apply .ok
    (World.oneTask.exec (.advance 1000))

def executeTaken (dagDefinition : Option DagDefinition) (context : DispatchArg) : Except PyErr ExecResult :=
  ((failingExecutor.execute ⟨.one, [], []⟩ Uuid.one.text dagDefinition context).runWith Command.apply .ok
    takeOneTask.2).1

/-- The task that the consumer takes fails without its DAG. The second call has a DAG that ends
`FAILED`, and reports `completed`. -/
theorem consumer_outcome_honest_taken : takeOneTask.1 = .ok (some Uuid.one.text) ∧
    (∃ r, executeTaken none (.taskData Uuid.one.text "gpu") = .ok r ∧ r.status = .failed ∧
      Honest oneStepDag none (.taskData Uuid.one.text "gpu") r) ∧
    ∃ r ctx, executeTaken (some oneStepDag) (.function "dispatch") = .ok r ∧ r.status = .completed ∧
      r.dagResult = some ctx ∧ ctx.status = .failed := by
  have hr : executeTaken none (.taskData Uuid.one.text "gpu") =
      .ok { status := .failed, error := some "'NoneType' object has no attribute 'dag_id'" } := by decide +kernel
  have hh := (consumer_outcome_honest rfl ⟨.one, [], []⟩ Uuid.one.text oneStepDag "gpu").1 _
    (Prog.yields_of_runWith hr)
  have hd : executeTaken (some oneStepDag) (.function "dispatch") = .ok
      { status := .completed, dagResult := some { taskId := "d", dagId := "d", status := .failed } } := by
    decide +kernel
  exact ⟨by decide +kernel, ⟨_, hr, rfl, hh⟩, _, _, hd, rfl, rfl, rfl⟩

theorem consumer_never_completes_taken :
    ∃ r, executeTaken none (.taskData Uuid.one.text "gpu") = .ok r ∧ r.status ≠ .completed ∧ r.dagResult = none := by
  have hr : executeTaken none (.taskData Uuid.one.text "gpu") =
      .ok { status := .failed, error := some "'NoneType' object has no attribute 'dag_id'" } := by decide +kernel
  exact ⟨_, hr, consumer_never_completes rfl _ _ (Prog.yields_of_runWith hr)⟩

end AsyncScheduler
