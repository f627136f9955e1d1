import AsyncScheduler.Platform.TaskCompletionNode
import AsyncScheduler.Platform.TickRun
import AsyncScheduler.Properties.Submission

/-!
# Recovery inserts

Neither a completion report nor phase 1 of the reconciler can create the row of a task.
-/

namespace AsyncScheduler
open TaskReconciler

/-- Both inserts leave out `task_type`, so their whole transaction is refused. -/
theorem keepsTasks_report (r : Completion) :
    ReportAllowed (fun w => w.db.tasks.find r.taskId = none) Command.keepsTasks r where
  read := keepsTasks_of_ne_commit (by simp)
  post _ := keepsTasks_of_ne_commit (by simp)
  done := keepsTasks_of_ne_commit (by simp)
  retry _ _ := keepsTasks_of_ne_commit (by simp)
  persist w write outbox hw hwr _ := by
    obtain ⟨old, next, hs, -⟩ | ⟨-, record, hty, rfl⟩ := TaskCompletionNode.persistWrite_eq_ok hwr
    · exact absurd (hw.symm.trans hs) (by simp)
    · intro w'
      simp only [Command.apply, Fault.applied, World.exec, Mysql.commit, Mysql.write, TaskInsert.toRow, hty, ite_self]
  track _ h := keepsTasks_track h

theorem keepsTasks_phase1 : SideScope Command.keepsTasks where
  read := keepsTasks_of_ne_commit (by simp)
  repair ts w := congrArg (fun w' => w'.db.tasks) (exec_phase1 w ts)
  transaction _ _ _ := keepsTasks_of_ne_commit (by simp)
  callback _ _ _ := keepsTasks_of_ne_commit (by simp)

/-- A task without a durable row has none at any moment of a report on it, nor of phase 1 on any batch. -/
theorem recovery_inserts_nothing (node : TaskCompletionNode) (schedule : List Nat) (r : Completion)
    (rc : TaskReconciler) (batch : List TaskDoc) (w : World) (h : w.db.tasks.find r.taskId = none) :
    Along Command.apply (fun w' => w'.db.tasks.find r.taskId = none) (fun _ w' => w'.db.tasks.find r.taskId = none)
        (node.handleCompletion schedule r) w ∧
      Along Command.apply (fun w' => w'.db.tasks.find r.taskId = none) (fun _ w' => w'.db.tasks.find r.taskId = none)
        (rc.phase1DoubleWrite batch) w := by
  have hk : ∀ (c : Command) (i : Fault) (w' : World), c.keepsTasks → w'.db.tasks.find r.taskId = none →
      (c.apply i w').db.tasks.find r.taskId = none := by
    intro c i w' hc hw'
    rw [TaskCreator.keepsTasks_apply hc i w', hw']
  refine ⟨?_, ?_⟩
  · exact (Along.of_issues hk (TaskCompletionNode.issues_handleCompletion (keepsTasks_report r) node schedule) h).mono
      (fun _ h => h) fun _ _ h => h.2
  · exact (Along.of_issues hk (issues_phase1DoubleWrite keepsTasks_phase1 batch) h).mono (fun _ h => h) fun _ _ h => h.2

theorem recovery_inserts_nothing_empty :
    World.empty.db.tasks.find "t1" = none ∧
      Along Command.apply (fun w' => w'.db.tasks.find "t1" = none) (fun _ w' => w'.db.tasks.find "t1" = none)
        (TaskCompletionNode.plain.handleCompletion [] ⟨"t1", "completed", none, "", ""⟩) World.empty :=
  ⟨rfl, (recovery_inserts_nothing .plain [] ⟨"t1", "completed", none, "", ""⟩ { instanceId := "r1" } [] World.empty rfl).1⟩

theorem completion_without_row_lost :
    ((TaskCompletionNode.plain.handleCompletion [] ⟨"t1", "completed", none, "", ""⟩).runWith
      Command.apply .ok World.empty).2.db.tasks.find "t1" = none := by
  decide +kernel

end AsyncScheduler
