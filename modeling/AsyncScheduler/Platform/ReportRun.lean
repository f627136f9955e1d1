import AsyncScheduler.Platform.TaskCompletionNode
import AsyncScheduler.Shared.Concurrent

/-!
# A report that reaches the row

Once the report has read a row for which its status is allowed, the status it writes reaches the
row, whatever the row holds by then.
-/

namespace AsyncScheduler

variable {x text : String} {outbox : List DbWrite} {r : Completion}

def Completion.Fits (r : Completion) : Prop :=
  r.callbackUrl = "" ∨ (r.taskId.length ≤ 64 ∧ r.tenantId.length ≤ 64 ∧ r.callbackUrl.length ≤ 512)

def HasStatus (x : String) (s : TaskStatus) : World → Prop := RowIs x fun status _ => status = s

theorem hasStatus_of_commit {s : TaskStatus} {w : World} {row : TaskRecord} (hte : TaskStatus.ofText text = some s) (hr : w.db.tasks.find x = some row)
    (ho : ∀ db : Mysql, ∃ db', db.commit w.redis.clock outbox = .ok db' ∧ db'.tasks = db.tasks)
    (outputData : Option String) (errorMessage : String) :
    HasStatus x s (w.exec (.commit (.updateTask x text outputData errorMessage :: outbox))) := by
  obtain ⟨db₁, row₁, hw, hr₁, hs₁⟩ :=
    Mysql.write_updateTask w.redis.clock hte hr outputData errorMessage
  obtain ⟨db₂, hcommit, ht⟩ := ho db₁
  refine ⟨row₁, ?_, hs₁⟩
  simp only [World.exec, Mysql.commit, hw, hcommit]
  rw [ht, hr₁]

theorem outboxWrites_fit (hf : r.Fits) (timestamp : Int) (now : ℚ) (db : Mysql) :
    r.callbackUrl ≠ "" → ∃ db', db.commit now
      [.insertOutbox ⟨r.taskId, r.tenantId, r.callbackUrl, r.status, TaskCompletionNode.outputData r, timestamp⟩] =
        .ok db' ∧ db'.tasks = db.tasks := by
  intro hu
  obtain ⟨hid, ht, hc⟩ := hf.resolve_left hu
  simp [Mysql.commit, Mysql.write, Mysql.orElse, Mysql.tooLong, not_lt.mpr hid, not_lt.mpr ht, not_lt.mpr hc]

theorem refused_of_unfit (hf : ¬ r.Fits) (ho : r.Outbox outbox)
    (write : DbWrite) (db : Mysql) (now : ℚ) : ∃ e, db.commit now (write :: outbox) = .error e := by
  obtain ⟨hu, hw⟩ := not_or.mp hf
  obtain ⟨_, timestamp, rfl⟩ := ho.resolve_left fun h => hu h.1
  simp only [Mysql.commit]
  split
  · exact ⟨_, rfl⟩
  · rename_i db₁ _
    by_cases hid : r.taskId.length ≤ 64
    · by_cases ht : r.tenantId.length ≤ 64
      · have hc : 512 < r.callbackUrl.length := by
          by_contra h
          exact hw ⟨hid, ht, not_lt.mp h⟩
        simp [Mysql.write, Mysql.orElse, Mysql.tooLong, not_lt.mpr hid, not_lt.mpr ht, hc]
      · simp [Mysql.write, Mysql.orElse, Mysql.tooLong, not_lt.mpr hid, not_le.mp ht]
    · simp [Mysql.write, Mysql.orElse, Mysql.tooLong, not_le.mp hid]

theorem refused_of_text (ht : TaskStatus.ofText text = none) (outputData : Option String)
    (errorMessage : String) (outbox : List DbWrite) (db : Mysql) (now : ℚ) :
    ∃ e, db.commit now (.updateTask x text outputData errorMessage :: outbox) = .error e := by
  simp [Mysql.commit, Mysql.write, ht]

section Achieves
variable {I P : World → Prop} {α β : Type} {g : α → Py β}

theorem achieves_query {f : World → α} (h : ∀ w, I w → Achieves Command.apply .ok I P (g (f w))) :
    Achieves Command.apply .ok I P ((query f).bind g) := by
  intro w hw
  exact .inl ⟨by rwa [apply_read], h w hw⟩

theorem achieves_commit {writes : List DbWrite} {g : Unit → Py β} (hP : ∀ w, I w → P (w.exec (.commit writes)))
    (hg : Issues P (Keeps Command.apply .ok P) (fun _ => True) (g ())) :
    Achieves Command.apply .ok I P ((commit writes).bind g) := by
  intro w hw
  refine .inr ⟨hP w hw, Issues.bind (Q := fun _ => True) ?_ fun _ _ => hg⟩
  dsimp only
  split
  · trivial
  · trivial

theorem keeps_read : Keeps Command.apply .ok P .read := fun w hw => by rwa [apply_read]

theorem achieves_session {body : Py α} (hb : Achieves Command.apply .ok I P body) :
    Achieves Command.apply .ok I P (session body) := by
  have hi : Issues P (Keeps Command.apply .ok P) (fun _ => True) (query fun _ => ()) :=
    issues_query keeps_read fun _ _ => trivial
  refine Achieves.ensure (Achieves.handle (Achieves.bind hb ?_) ?_) fun _ => hi
  · exact fun _ => hi.bind fun _ _ => trivial
  · intro e
    split
    · exact hi.bind fun _ _ => trivial
    · trivial

end Achieves

namespace TaskCompletionNode
variable {s : TaskStatus} {w : World} {text : String} {node : TaskCompletionNode} {r : Completion} {p : Py Unit}

theorem nextStatus_eq_ok {next : String} (h : nextStatus s text = .ok next) :
    s = .running ∧ (text = "completed" ∨ text = "failed") ∧ next = text ∨
      text ≠ "completed" ∧ text ≠ "failed" ∧ next = text := by
  unfold nextStatus at h
  split at h
  · rename_i ht
    cases s with
    | running =>
      cases h
      exact .inl ⟨rfl, .inl ht, ht.symm⟩
    | _ => cases h
  · split at h
    · rename_i ht
      cases s with
      | running =>
        cases h
        exact .inl ⟨rfl, .inr ht, ht.symm⟩
      | _ => cases h
    · rename_i hc hf
      exact .inr ⟨hc, hf, (Except.ok.inj h).symm⟩

/-- What follows the `SELECT`. -/
def persistRow (r : Completion) (row : Option TaskRecord) : Py Unit :=
  match persistWrite r row with
  | .error e => .raise e
  | .ok write => do
    if row.isSome then
      query fun _ => ()
    saveFinal r write

theorem persist_eq (hn : node.hasDb = true) (r : Completion) :
    node.persist r = session ((query fun w => w.db.tasks.find r.taskId).bind (persistRow r)) := by
  unfold persist
  rw [if_pos hn]
  rfl

variable {I P : World → Prop}

section
variable (hevent : ∀ row, Keeps Command.apply .ok P (.commit [.insertTaskEvent row]))
include hevent

theorem achieves_saveFinal {write : DbWrite}
    (hcommit : ∀ w outbox, I w → r.Outbox outbox → P (w.exec (.commit (write :: outbox)))) :
    Achieves Command.apply .ok I P (saveFinal r write) := by
  have he : Issues P (Keeps Command.apply .ok P) (fun _ => True)
      (exceptException (TaskTimelineService.emit r.taskId none ("task_" ++ r.status)
        [("callback_url", r.callbackUrl)]) fun _ => pure ()) :=
    issues_exceptException (issues_session keeps_read (issues_commit (hevent _))) fun _ => trivial
  unfold saveFinal outboxWrites
  split
  · rename_i hu
    exact achieves_commit (fun w hw => hcommit w [] hw (.inl ⟨hu, rfl⟩)) he
  · rename_i hu
    intro w hw
    refine .inl ⟨by rwa [apply_read], ?_⟩
    exact achieves_commit (fun w hw => hcommit w _ hw (.inr ⟨hu, _, rfl⟩)) he

variable {text : String} (hcommit : ∀ w outbox, I w → r.Outbox outbox →
  P (w.exec (.commit (.updateTask r.taskId text (outputData r) (errorMessage r) :: outbox))))
include hcommit

theorem achieves_persistRow {old : TaskRecord} (hn : nextStatus old.status r.status = .ok text) :
    Achieves Command.apply .ok I P (persistRow r (some old)) := by
  have hw : persistWrite r (some old) = .ok (.updateTask r.taskId text (outputData r) (errorMessage r)) := by
    simp [persistWrite, hn, Except.map]
  unfold persistRow
  rw [hw]
  exact achieves_query fun _ _ => achieves_saveFinal hevent hcommit

theorem achieves_persist {node : TaskCompletionNode} (hno : node.hasDb = true)
    (hI : ∀ w, I w → ∃ row, w.db.tasks.find r.taskId = some row ∧ nextStatus row.status r.status = .ok text) :
    Achieves Command.apply .ok I P (node.persist r) := by
  rw [persist_eq hno]
  refine achieves_session (achieves_query fun w hw => ?_)
  obtain ⟨row, hr, hn⟩ := hI w hw
  rw [hr]
  exact achieves_persistRow hevent hcommit hn

end

theorem gather_achieves {I P : World → Prop} (hp : Achieves Command.apply .ok I P p) (hc : CallbackAllowed (fun cmd => Keeps Command.apply .ok I cmd ∧ Keeps Command.apply .ok P cmd) r.taskId)
    (node : TaskCompletionNode) (schedule : List Nat) (hw : I w) :
    P ((Prog.gather Fault.interrupt schedule [p, node.triggerCallback r]).runWith Command.apply .ok w).2 :=
  Achieves.gather rfl hp (issues_triggerCallback hc node) schedule hw

theorem hasStatus_event (x : String) (row : TaskEventRow) :
    Keeps Command.apply .ok (HasStatus x s) (.commit [.insertTaskEvent row]) := fun _ hw =>
  rowIs_apply .ok (show (Command.commit [.insertTaskEvent row]).leaves x from List.forall_mem_singleton.mpr trivial) hw

theorem hasStatus_final (ht : TaskStatus.ofText text = some s) (hf : r.Fits) {w : World} {outbox : List DbWrite}
    (hr : ∃ row, w.db.tasks.find r.taskId = some row) (ho : r.Outbox outbox) :
    HasStatus r.taskId s
      (w.exec (.commit (.updateTask r.taskId text (outputData r) (errorMessage r) :: outbox))) := by
  obtain ⟨row, hr⟩ := hr
  refine hasStatus_of_commit ht hr (fun db => ?_) _ _
  rcases ho with ⟨-, rfl⟩ | ⟨hu, timestamp, rfl⟩
  · exact ⟨db, rfl, rfl⟩
  · exact outboxWrites_fit hf timestamp _ db hu

theorem hasStatus_gather {x : String} {P : TaskStatus → String → Prop}
    (hp : Achieves Command.apply .ok (RowIs x P) (HasStatus x s) p) (node : TaskCompletionNode)
    (r : Completion) (schedule : List Nat) (hw : RowIs x P w) :
    HasStatus x s ((Prog.gather Fault.interrupt schedule [p, node.triggerCallback r]).runWith
      Command.apply .ok w).2 := by
  have hk (cmd : Command) (hc : cmd.leaves x) : Keeps Command.apply .ok (RowIs x P) cmd ∧
      Keeps Command.apply .ok (HasStatus x s) cmd :=
    ⟨fun w hw => rowIs_apply .ok hc hw, fun w hw => rowIs_apply .ok hc hw⟩
  exact gather_achieves hp
    ⟨hk _ trivial, fun _ => hk _ trivial, hk _ trivial, fun _ _ => hk _ trivial⟩ node schedule hw

theorem world_gather {ps : List (Py Unit)} {schedule : List Nat} {β : Type} (b : β) (w : World) :
    (((Prog.gather Fault.interrupt schedule ps).bind fun _ => .ret b).runWith Command.apply .ok w).2 =
      ((Prog.gather Fault.interrupt schedule ps).runWith Command.apply .ok w).2 := by
  rw [Prog.runWith_bind]
  split
  · rename_i h
    rw [h]
    rfl
  · rename_i h
    rw [h]

/-- An undisturbed report moves the row to the status that the state machine allows. -/
theorem hasStatus_handleCompletion (hno : node.hasDb = true)
    {s₀ : TaskStatus} (hn : nextStatus s₀ r.status = .ok text)
    (ht : TaskStatus.ofText text = some s) (hf : r.Fits) (schedule : List Nat) (hw : HasStatus r.taskId s₀ w) :
    HasStatus r.taskId s ((node.handleCompletion schedule r).runWith Command.apply .ok w).2 := by
  unfold handleCompletion
  rw [Prog.bind_eq, Prog.pure_eq, world_gather]
  have hcommit (w : World) (outbox : List DbWrite) (hw : HasStatus r.taskId s₀ w) (ho : r.Outbox outbox) :
      HasStatus r.taskId s
        (w.exec (.commit (.updateTask r.taskId text (outputData r) (errorMessage r) :: outbox))) := by
    obtain ⟨row, hr, -⟩ := hw
    exact hasStatus_final ht hf ⟨row, hr⟩ ho
  refine hasStatus_gather (achieves_persist (hasStatus_event r.taskId) hcommit hno fun w hw => ?_) node r schedule hw
  obtain ⟨row, hr, hs⟩ := hw
  exact ⟨row, hr, by rw [hs, hn]⟩

end TaskCompletionNode

end AsyncScheduler
