import AsyncScheduler.Platform.QueueEffects
import AsyncScheduler.Platform.TaskReconciler

/-!
# Waiting and running at once

Clients of the queue manager, rebuilds and phase-2 recoveries run together.
-/

namespace AsyncScheduler

inductive QueueClient where
  | call (request : QueueCall)
  | rebuild (rc : TaskReconciler)
  | stuckRecovery (rc : TaskReconciler) (batch : List TaskDoc)

def QueueClient.program : QueueClient → Py Unit
  | .call request => request.program
  | .rebuild rc => rc.rebuildRedisFromMysql
  | .stuckRecovery rc batch => rc.phase2StuckRecovery batch

def queueClients : System Command Fault World PyErr QueueClient ℚ where
  apply := Command.apply
  program := QueueClient.program
  ambient := .advance

def World.Apart (w : World) (c : String) : Prop := ∀ x, x ∈ w.pending c → x ∉ w.running c

/-- The id that a step puts into a pending set: an accepted enqueue, direct or by phase 2, or
the `ZADD` of the rebuild. -/
def Step.admitted (t : Step) : Option (String × String) :=
  if t.applied then (t.cmd.accepts t.pre).or t.cmd.restores else none

def Step.Respectful (t : Step) : Prop := ∀ e ∈ t.admitted, e.2 ∉ t.pre.running e.1

instance (t : Step) : Decidable t.Respectful :=
  inferInstanceAs (Decidable (∀ e ∈ t.admitted, e.2 ∉ t.pre.running e.1))

theorem Step.mem_admitted {t : Step} {c x : String}
    (h : t.accepted = some (c, x) ∨ (t.applied ∧ t.cmd.restores = some (c, x))) : t.admitted = some (c, x) := by
  unfold admitted
  rcases h with h | ⟨ha, h⟩
  · unfold accepted at h
    split at h
    · rename_i ha
      rw [if_pos ha, h, Option.some_or]
    · cases h
  · rw [if_pos ha]
    unfold Command.restores at h
    split at h
    · rename_i hc
      rw [hc]
      exact h
    · cases h

/-- A respectful step keeps pending and running apart. -/
theorem apart_step {t : Step} (hr : t.Respectful) (h : ∀ c, t.pre.Apart c) (c : String) : t.post.Apart c := by
  intro x hp hru
  rcases Step.mem_running_post hru with hrun | ho
  · rcases Step.mem_pending_post hp with hpe | ha
    · exact h c x hpe hrun
    · exact hr (c, x) (Step.mem_admitted ha) hrun
  · exact (Step.handedOut_moves ho).2.2 hp

/-- In every run whose steps admit no running id, no id is ever both waiting and running. -/
theorem apart_of_respectful (w : World) (hw : ∀ c, w.Apart c) (moves : List (Move QueueClient ℚ Fault))
    (hrespect : ∀ t ∈ (queueClients.run (Sys.init w) moves).trace, Step.Respectful t) (c : String) :
    (queueClients.run (Sys.init w) moves).world.Apart c := by
  refine System.run_keeps (S := queueClients)
    (J := fun tr w => (∀ t ∈ tr, Step.Respectful t) → ∀ c, w.Apart c) ?_ (fun _ => hw) moves hrespect c
  intro tr w cmd i ih htr
  exact apart_step (t := ⟨cmd, i, w⟩) (htr _ List.mem_cons_self)
    (ih fun t ht => htr t (List.mem_cons_of_mem _ ht))

def enqueueThenDequeue : List (Move QueueClient ℚ Fault) :=
  [.env 1000 .ok, .start (.call (.enqueue {} "gpu" "t1" 3 0)), .step 0 .ok, .step 0 .ok, .step 0 .ok,
    .start (.call (.dequeueReady {} "gpu")), .step 1 .ok, .step 1 .ok]

theorem apart_enqueueThenDequeue :
    "t1" ∈ (queueClients.run (Sys.init World.empty) enqueueThenDequeue).world.running "gpu" ∧
      (queueClients.run (Sys.init World.empty) enqueueThenDequeue).world.Apart "gpu" :=
  ⟨by decide +kernel, apart_of_respectful World.empty
    (fun _ _ h => absurd h (SortedSet.mem_empty _)) enqueueThenDequeue (by decide +kernel) "gpu"⟩

def requeueWhileRunning : List (Move QueueClient ℚ Fault) :=
  let doc : TaskDoc := { taskId := "t1", status := "queued", capability := "gpu", maxRetries := some 3 }
  enqueueThenDequeue ++
    .start (.stuckRecovery { instanceId := "r1", queueManager := some {} } [doc]) ::
    List.replicate 12 (.step 2 .ok)

theorem requeueWhileRunning_overlaps :
    "t1" ∈ (queueClients.run (Sys.init World.empty) requeueWhileRunning).world.pending "gpu" ∧
      "t1" ∈ (queueClients.run (Sys.init World.empty) requeueWhileRunning).world.running "gpu" := by
  decide +kernel

end AsyncScheduler
