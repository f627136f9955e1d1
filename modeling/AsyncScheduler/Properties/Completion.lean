import AsyncScheduler.Platform.CreatorFootprint
import AsyncScheduler.Platform.ReconcilerScope
import AsyncScheduler.Platform.ReportRun
import AsyncScheduler.Platform.TaskExecutor

/-!
# The row of a successful task

A new row is `QUEUED`, nothing on the way to the end of a task writes `RUNNING`, and the state
machine completes only running tasks.
-/

namespace AsyncScheduler

/-- What can happen to a task `x` and around it when nobody cancels it and it is only reported
as completed. -/
inductive LifeRequest (x : String) where
  | queue (call : QueueCall)
  | execute (ex : TaskExecutor) (inputs : ExecInputs) (taskId : String)
      (dagDefinition : Option DagDefinition) (context : DispatchArg)
  | tick (rc : TaskReconciler) (scanned : List String) (schedule : List Nat)
  | create (cr : TaskCreator) (u : CreateInputs) (tenantId : String) (key : Option String)
      (kw : TaskKwargs)
  | report (node : TaskCompletionNode) (schedule : List Nat) (r : Completion)
      (completed : r.taskId = x → r.status = "completed")

def LifeRequest.program {x : String} : LifeRequest x → Py Unit
  | .queue call => call.program
  | .execute ex inputs taskId dagDefinition context =>
    (ex.execute inputs taskId dagDefinition context).void
  | .tick rc scanned schedule => rc.tick scanned schedule
  | .create cr u tenantId key kw => (cr.createTask u tenantId key kw).void
  | .report node schedule r _ => (node.handleCompletion schedule r).void

def lifeSystem (x : String) : System Command Fault World PyErr (LifeRequest x) ℚ where
  apply := Command.apply
  program := LifeRequest.program
  ambient := .advance

def Queued (x : String) : World → Prop := RowIs x fun status _ => status = .queued

section
variable {x : String}

theorem leaves_ambient : Ambient (Command.leaves x) where
  read := trivial
  breaker _ := trivial
  register _ := trivial

theorem leaves_tick {I : World → Prop} :
    TickAllowed I (Command.leaves x) (fun _ => True) (fun _ => True) where
  toAmbient := leaves_ambient
  rows _ _ _ _ := trivial
  docs _ _ _ _ _ := trivial
  leader _ _ := trivial
  cache _ _ := trivial
  restore _ _ _ _ := trivial
  repair ts := by
    intro write hw
    obtain ⟨t, _, rfl⟩ := List.mem_map.mp hw
    trivial
  transaction _ _ _ := trivial
  dedup _ := trivial
  bump _ := List.forall_mem_singleton.mpr trivial
  requeue _ _ _ _ _ _ _ := trivial
  fail _ _ := trivial
  callback _ _ _ := trivial

theorem leaves_report {r : Completion} (hc : r.taskId = x → r.status = "completed") :
    ReportAllowed (Queued x) (Command.leaves x) r where
  read := trivial
  post _ := trivial
  persist w write outbox hw hwr hou := by
    refine List.forall_mem_cons.mpr ⟨?_, fun o ho => DbWrite.leaves_of_tracks (hou o ho) x⟩
    rcases TaskCompletionNode.persistWrite_eq_ok hwr with
      ⟨old, next, hold, hn, rfl⟩ | ⟨_, record, _, rfl⟩
    · intro hx
      obtain ⟨row, hr, hs⟩ := hw
      obtain rfl : row = old := Option.some.inj (hr.symm.trans (hx ▸ hold))
      rw [hs, hc hx] at hn
      cases hn
    · trivial
  track _ hwr := List.forall_mem_singleton.mpr (DbWrite.leaves_of_tracks hwr x)
  done := trivial
  retry _ _ := trivial

theorem leaves_execution {I : World → Prop} {taskId : String} {dagDefinition : Option DagDefinition} :
    ExecAllowed I (Command.leaves x) taskId dagDefinition where
  read := trivial
  memory _ := trivial
  renew _ _ := trivial
  release _ := trivial
  announced _ := trivial
  started _ _ _ := trivial
  executed _ _ := trivial

theorem LifeRequest.issues (request : LifeRequest x) :
    Issues (Queued x) (Command.leaves x) (fun _ => True) request.program := by
  cases request with
  | queue call => exact call.issues leaves_ambient fun _ _ => trivial
  | execute ex inputs taskId dagDefinition context =>
    exact (ex.issues_execute inputs context (fun _ _ => trivial) fun _ _ _ => leaves_execution).void
  | tick rc scanned schedule => exact rc.issues_tick leaves_tick scanned schedule
  | create cr u tenantId key kw =>
    exact (cr.issues_createTask u (TaskCreator.leaves_create x)).void
  | report node schedule r completed =>
    exact (node.issues_handleCompletion (leaves_report completed) schedule).void

end

/-- After `create_task` returned a new task, its row is `QUEUED` in every state that is reached
without a cancel and without a report other than success: it is never `COMPLETED`. -/
theorem created_never_completed (cr : TaskCreator) (u : CreateInputs) (tenantId : String)
    (key : Option String) (kw : TaskKwargs) (w₀ w : World) (created : CreateResult)
    (hdb : cr.hasDb = true) (hpersist : kw.persistToDb.getD true = true)
    (hcreate : (cr.createTask u tenantId key kw).runWith Command.apply .ok w₀ = (.ok created, w))
    (hnew : created.idempotentReused = false) (moves : List (Move (LifeRequest created.taskId) ℚ Fault)) :
    ∃ row, ((lifeSystem created.taskId).run (Sys.init w) moves).world.db.tasks.find created.taskId =
        some row ∧ row.status = .queued ∧ row.status ≠ .completed := by
  have ha := TaskCreator.along_createTask (J := fun _ => True) (w := w₀) cr u tenantId key hdb
    hpersist (fun _ _ _ _ => trivial) (fun _ _ => trivial) trivial
  obtain ⟨hid, row, hr, hs, _⟩ := ha.runWith hcreate hnew
  have hru := System.run_invariant (S := lifeSystem created.taskId) (I := Queued created.taskId)
    (C := Command.leaves created.taskId) (J := fun _ => Queued created.taskId) (fun _ _ h => h)
    (fun _ w c i hc h => rowIs_apply i hc h) (fun request => request.issues) (fun _ => trivial)
    (s := Sys.init w) (fun _ hp => absurd hp List.not_mem_nil) ⟨row, hid ▸ hr, hs⟩ moves
  obtain ⟨row', hr', hq⟩ := hru
  exact ⟨row', hr', hq, by rw [hq]; decide⟩

def dequeueOneTask : Except PyErr (Option String) × World :=
  (QueueManager.dequeueReady {} "gpu").runWith Command.apply .ok (World.oneTask.exec (.advance 1000))

def executeOneTask : Except PyErr ExecResult × World :=
  (TaskExecutor.idle.execute ⟨.one, [], []⟩ Uuid.one.text (some { dagId := "d" }) (.function "f")).runWith
    Command.apply .ok dequeueOneTask.2

def reportOneTask : Except PyErr Bool × World :=
  (TaskCompletionNode.plain.handleCompletion [] { taskId := Uuid.one.text, status := "completed" }).runWith
    Command.apply .ok executeOneTask.2

theorem reportOneTask_stays_queued : dequeueOneTask.1 = .ok (some Uuid.one.text) ∧
    executeOneTask.1.map ExecResult.status = .ok .completed ∧
    reportOneTask.1 = .ok true ∧
    (reportOneTask.2.db.tasks.rows.map fun r => (r.taskId, r.status)) = [(Uuid.one.text, .queued)] := by
  decide +kernel

theorem created_never_completed_oneTask :
    ((TaskCreator.plain.createTask .ones "acme" none { taskType := some "gpu" }).runWith Command.apply .ok
      World.empty).1 = .ok ⟨Uuid.one.text, true, 1, 1, false⟩ ∧
    ∃ row, ((lifeSystem Uuid.one.text).run (Sys.init World.oneTask)
        (.start (.report .plain [] { taskId := Uuid.one.text, status := "completed" } fun _ => rfl) ::
          List.replicate 4 (.step 0 .ok))).world.db.tasks.find Uuid.one.text = some row ∧
      row.status = .queued ∧ row.status ≠ .completed := by
  have hc : ((TaskCreator.plain.createTask .ones "acme" none { taskType := some "gpu" }).runWith
      Command.apply .ok World.empty).1 = .ok ⟨Uuid.one.text, true, 1, 1, false⟩ := by decide +kernel
  exact ⟨hc, created_never_completed .plain .ones "acme" none { taskType := some "gpu" } World.empty
    World.oneTask ⟨Uuid.one.text, true, 1, 1, false⟩ rfl rfl (Prod.ext hc rfl) rfl _⟩

section
open List

inductive RecoveryRequest where
  | dequeueReady (q : QueueManager) (capability : String)
  | tick (rc : TaskReconciler) (scanned : List String) (schedule : List Nat)

def RecoveryRequest.program : RecoveryRequest → Py Unit
  | .dequeueReady q capability => (q.dequeueReady capability).void
  | .tick rc scanned schedule => rc.tick scanned schedule

def recoverySystem : System Command Fault World PyErr RecoveryRequest ℚ where
  apply := Command.apply
  program := RecoveryRequest.program
  ambient := .advance

def Quiet (x : String) (t : TaskDoc) : Prop := t.idText = x → TaskReconciler.isStuckCandidate t = false

def Still (x : String) (w : World) : Prop := w.Docs (Quiet x) ∧ ∀ c, x ∉ w.pending c

/-- A status in which the rebuild neither restores the task nor caches it as running. -/
def TaskStatus.Inactive (status : TaskStatus) : Prop :=
  status ≠ .queued ∧ status ≠ .scheduled ∧ status ≠ .running

def RowInactive (x : String) (w : World) : Prop :=
  ∀ row, w.db.tasks.find x = some row → row.status.Inactive

structure FinishedTask (x : String) (w : World) : Prop where
  row : RowInactive x w
  still : Still x w

/-- The command puts the task neither into a document that recovery would act on nor into a queue. -/
structure Command.Spares (x : String) (cmd : Command) : Prop where
  docs : ∀ d ∈ cmd.docs, Quiet x d
  accepts : ∀ w c, cmd.accepts w ≠ some (c, x)
  restores : ∀ c, cmd.restores ≠ some (c, x)

section
variable {x : String}
variable {w : World} {r : Completion} {cmd : Command}

theorem still_apply (i : Fault) (hc : cmd.Spares x) (h : Still x w) : Still x (cmd.apply i w) := by
  refine ⟨docs_apply i hc.docs h.1, fun c hx => ?_⟩
  rcases Step.mem_pending_post (t := ⟨cmd, i, w⟩) hx with hx | hx | ⟨_, hx⟩
  · exact h.2 c hx
  · unfold Step.accepted at hx
    split at hx
    · exact hc.accepts w c hx
    · cases hx
  · exact hc.restores c hx

theorem spares_of_docs (hd : ∀ d ∈ cmd.docs, Quiet x d)
    (hq : ∀ op, cmd ≠ .queue op) : cmd.Spares x where
  docs := hd
  accepts w c h := by
    unfold Command.accepts at h
    split at h
    · exact hq _ rfl
    · cases h
  restores c h := by
    unfold Command.restores at h
    split at h
    · exact hq _ rfl
    · cases h

theorem spares_key {k : String} {op : KeyOp} (hop : op.doc = none) : (Command.keys [(k, op)]).Spares x :=
  spares_of_docs (by simp [Command.docs, hop]) fun _ h => nomatch h

theorem spares_commit (writes : List DbWrite) : (Command.commit writes).Spares x :=
  spares_of_docs (fun _ hd => absurd hd not_mem_nil) fun _ h => nomatch h

theorem spares_advance (t : ℚ) : (Command.advance t).Spares x :=
  spares_of_docs (fun _ hd => absurd hd not_mem_nil) fun _ h => nomatch h

theorem spares_queue {op : QueueOp} (ha : ∀ w, (Command.queue op).accepts w = none)
    (hr : (Command.queue op).restores = none) : (Command.queue op).Spares x where
  docs d hd := absurd hd not_mem_nil
  accepts w c h := by
    rw [ha w] at h
    cases h
  restores c h := by
    rw [hr] at h
    cases h

theorem accepts_enqueue {c c' y : String} {sc : ℚ} {depth ttl : Int}
    (h : (Command.queue (.enqueue c y sc depth ttl)).accepts w = some (c', x)) : c = c' ∧ y = x := by
  simp only [Command.accepts] at h
  split at h
  · cases h
  · exact Prod.mk.inj (Option.some.inj h)

theorem spares_ambient : Ambient (Command.Spares x) where
  read := spares_of_docs (fun _ hd => absurd hd not_mem_nil) fun _ h => nomatch h
  breaker _ := spares_of_docs (fun _ hd => absurd hd not_mem_nil) fun _ h => nomatch h
  register _ := spares_queue (fun _ => rfl) rfl

structure Command.KeepsFinished (x : String) (cmd : Command) : Prop where
  leaves : cmd.leaves x
  untyped : cmd.untyped
  spares : cmd.Spares x

theorem finishedTask_apply (i : Fault) (hc : cmd.KeepsFinished x)
    (h : FinishedTask x w) : FinishedTask x (cmd.apply i w) where
  row row' hr' := by
    obtain ⟨row, hr, hs⟩ := status_of_apply hc.leaves hc.untyped hr'
    exact hs ▸ h.row row hr
  still := still_apply i hc.spares h.still

theorem quiet_payload {row : TaskRecord} (h : row.taskId = x → row.status.Inactive) : Quiet x row.payload := by
  intro hx
  obtain ⟨hq, _, hr⟩ := h hx
  change decide (lower row.status.value ∈ ["running", "queued"]) = false
  cases hs : row.status with
  | queued => exact absurd hs hq
  | running => exact absurd hs hr
  | _ => decide

theorem quiet_markFailed (t : TaskDoc) : Quiet x (TaskReconciler.markFailed t) := by
  intro _
  change decide (lower TaskStatus.failed.value ∈ ["running", "queued"]) = false
  decide

/-- No tick brings a finished task back. -/
theorem finished_tick : TickAllowed (FinishedTask x) (Command.KeepsFinished x)
    (fun row => row.taskId = x → row.status.Inactive) (Quiet x) where
  read := ⟨trivial, trivial, spares_ambient.read⟩
  breaker op := ⟨trivial, trivial, spares_ambient.breaker op⟩
  register c := ⟨trivial, trivial, spares_ambient.register c⟩
  rows w hw row hr hx := hw.row row ((Table.find_eq_some_iff _ _ _).mpr ⟨hr, hx⟩)
  docs w hw := hw.still.1
  leader op hop := ⟨trivial, trivial, spares_key hop⟩
  cache row hr :=
    ⟨trivial, trivial, spares_of_docs (forall_mem_singleton.mpr (quiet_payload hr)) fun _ h => nomatch h⟩
  restore row t hr hwa := by
    refine ⟨trivial, trivial, fun _ hd => absurd hd not_mem_nil, fun _ _ h => (nomatch h), fun c h => ?_⟩
    obtain ⟨_, rfl⟩ := Prod.mk.inj (Option.some.inj h)
    obtain ⟨hq, hs, _⟩ := hr rfl
    exact hwa.elim hq hs
  repair ts := by
    refine ⟨fun write hwr => ?_, fun write hwr => ?_, spares_commit _⟩
    · obtain ⟨t, _, rfl⟩ := mem_map.mp hwr
      trivial
    · obtain ⟨t, _, rfl⟩ := mem_map.mp hwr
      rfl
  transaction _ op hop := ⟨trivial, trivial, spares_key hop⟩
  dedup _ := ⟨trivial, trivial, spares_key rfl⟩
  bump _ := ⟨forall_mem_singleton.mpr trivial, forall_mem_singleton.mpr trivial, spares_commit _⟩
  requeue t c sc depth ttl ht hc := by
    refine ⟨trivial, trivial, fun _ hd => absurd hd not_mem_nil, fun w c' h => ?_, fun _ h => nomatch h⟩
    have hx : t.idText = x := (accepts_enqueue h).2
    rw [ht hx] at hc
    cases hc
  fail ops ho := by
    refine ⟨trivial, trivial, spares_of_docs (fun d hd => ?_) fun _ h => nomatch h⟩
    obtain ⟨op, hop, hdo⟩ := mem_filterMap.mp hd
    obtain ⟨id, t, _, rfl⟩ := ho op hop
    cases hdo
    exact quiet_markFailed t
  callback _ _ _ := ⟨trivial, trivial, spares_of_docs (fun _ hd => absurd hd not_mem_nil) fun _ h => nomatch h⟩

/-- In no run is a finished task handed out. -/
theorem finishedTask_never_handed_out (hw : FinishedTask x w) (moves : List (Move RecoveryRequest ℚ Fault)) :
    ∀ t ∈ (recoverySystem.run (Sys.init w) moves).trace, ∀ c, Step.handedOut t ≠ some (c, x) := by
  have hr := System.run_invariant (S := recoverySystem) (I := FinishedTask x) (C := Command.KeepsFinished x)
    (J := fun trace w => FinishedTask x w ∧ ∀ t ∈ trace, ∀ c, Step.handedOut t ≠ some (c, x))
    (fun _ _ h => h.1) ?_ ?_ (fun t => ⟨trivial, trivial, spares_advance t⟩)
    (s := Sys.init w) (fun _ hp => absurd hp not_mem_nil)
    ⟨hw, fun _ ht => absurd ht not_mem_nil⟩ moves
  · exact hr.2
  · intro trace w cmd i hc ⟨hf, htr⟩
    refine ⟨finishedTask_apply i hc hf, forall_mem_cons.mpr ⟨fun c h => ?_, htr⟩⟩
    exact hf.still.2 c (Step.handedOut_moves h).1
  · intro request
    cases request with
    | dequeueReady q c =>
      refine (q.issues_dequeueReady ⟨finished_tick.read, finished_tick.breaker, finished_tick.register⟩
        fun _ _ => ⟨trivial, trivial, ?_⟩).void
      exact spares_queue (fun _ => rfl) rfl
    | tick rc scanned schedule => exact rc.issues_tick finished_tick scanned schedule

def Running (x : String) : World → Prop := RowIs x fun status _ => status = .running

def Completed (x : String) : World → Prop := RowIs x fun status _ => status = .completed

/-- The row, if there is one, is in an inactive status already, or it is running and the final
transaction can be stored. -/
def Closable (node : TaskCompletionNode) (r : Completion) (w : World) : Prop :=
  ∀ row, w.db.tasks.find r.taskId = some row →
    row.status.Inactive ∨ (row.status = .running ∧ node.hasDb = true ∧ r.Fits)

theorem spares_callback (taskId : String) : CallbackAllowed (Command.Spares x) taskId where
  read := spares_ambient.read
  post _ := spares_of_docs (fun _ hd => absurd hd not_mem_nil) fun _ h => nomatch h
  done := spares_key rfl
  retry _ _ := spares_of_docs (fun _ hd => absurd hd not_mem_nil) fun _ h => nomatch h

theorem spares_report {I : World → Prop} : ReportAllowed I (Command.Spares x) r where
  toCallbackAllowed := spares_callback _
  persist _ _ _ _ _ _ := spares_commit _
  track _ _ := spares_commit _

/-- A report of success changes nothing about a task that is finished already: the state machine
refuses the event, and the insert of a missing row has no type. -/
theorem finished_report (hs : r.status = "completed") :
    ReportAllowed (FinishedTask r.taskId) (Command.KeepsFinished r.taskId) r where
  read := finished_tick.read
  post request := ⟨trivial, trivial, (spares_callback r.taskId).post request⟩
  persist w write outbox hw hwr hou := by
    rcases TaskCompletionNode.persistWrite_eq_ok hwr with
      ⟨old, next, hold, hn, rfl⟩ | ⟨_, record, ht, rfl⟩
    · obtain ⟨_, _, hr⟩ := hw.row old hold
      rw [TaskCompletionNode.nextStatus, if_pos hs] at hn
      cases hold : old.status with
      | running => exact absurd hold hr
      | _ =>
        rw [hold] at hn
        cases hn
    · refine ⟨forall_mem_cons.mpr ⟨trivial, fun o ho => DbWrite.leaves_of_tracks (hou o ho) _⟩,
        forall_mem_cons.mpr ⟨ht, fun o ho => DbWrite.untyped_of_tracks (hou o ho)⟩,
        spares_commit _⟩
  track _ hwr := ⟨forall_mem_singleton.mpr (DbWrite.leaves_of_tracks hwr _),
    forall_mem_singleton.mpr (DbWrite.untyped_of_tracks hwr), spares_commit _⟩
  done := ⟨trivial, trivial, spares_key rfl⟩
  retry member score := ⟨trivial, trivial, (spares_callback r.taskId).retry member score⟩

theorem completed_handleCompletion {node : TaskCompletionNode} (hno : node.hasDb = true)
    (hs : r.status = "completed") (hf : r.Fits) (schedule : List Nat) (hw : Running r.taskId w) :
    Completed r.taskId ((node.handleCompletion schedule r).runWith Command.apply .ok w).2 := by
  have hn : TaskCompletionNode.nextStatus .running r.status = .ok TaskStatus.completed.value := by
    rw [hs]
    rfl
  exact TaskCompletionNode.hasStatus_handleCompletion hno hn (by decide) hf schedule hw

theorem finishedTask_handleCompletion (node : TaskCompletionNode)
    (hs : r.status = "completed") (schedule : List Nat) (hro : Closable node r w) (hst : Still r.taskId w) :
    FinishedTask r.taskId ((node.handleCompletion schedule r).runWith Command.apply .ok w).2 := by
  by_cases hi : RowInactive r.taskId w
  · exact ((node.issues_handleCompletion (finished_report hs) schedule).runWith
      (fun _ _ hcm h => finishedTask_apply .ok hcm h) ⟨hi, hst⟩).1
  · obtain ⟨row, hf, ha⟩ : ∃ row, w.db.tasks.find r.taskId = some row ∧ ¬ row.status.Inactive := by
      simpa [RowInactive] using hi
    obtain ⟨hr, hn, hfit⟩ := (hro row hf).resolve_left ha
    refine ⟨fun row' hr' => ?_, ?_⟩
    · obtain ⟨final, hfi, hc⟩ :=
        completed_handleCompletion hn hs hfit schedule ⟨row, hf, hr⟩
      obtain rfl := Option.some.inj (hfi.symm.trans hr')
      rw [hc]
      exact ⟨by decide, by decide, by decide⟩
    · exact ((node.issues_handleCompletion spares_report schedule).runWith
        (fun _ _ hcm h => still_apply .ok hcm h) hst).1

theorem finishedTask_complete (q : QueueManager) (c : String) (hw : FinishedTask x w) :
    FinishedTask x ((q.complete c x).runWith Command.apply .ok w).2 := by
  refine (Issues.runWith (C := Command.KeepsFinished x) (fun _ _ hc h => finishedTask_apply .ok hc h)
    (q.issues_complete finished_tick.toAmbient fun _ => ⟨trivial, trivial, ?_⟩) hw).1
  exact spares_queue (fun _ => rfl) rfl

end

def releaseOneTask : Except PyErr Bool × World :=
  (QueueManager.complete {} "gpu" Uuid.one.text).runWith Command.apply .ok reportOneTask.2

def tickOneTask : Except PyErr Unit × World :=
  (TaskReconciler.plain.tick [Uuid.one.text] []).runWith Command.apply .ok releaseOneTask.2

def World.runningTask : World :=
  World.empty.exec (.commit [.insertTask
    { taskId := "t", tenantId := "acme", taskType := some "gpu", status := TaskStatus.running.value }])

end

end AsyncScheduler
