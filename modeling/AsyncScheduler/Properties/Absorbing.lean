import AsyncScheduler.Platform.ReportRun
import AsyncScheduler.Services.TaskApplication

/-!
# Terminal status

The state machine lets no event leave `COMPLETED`, `FAILED` or `CANCELLED`.
-/

namespace AsyncScheduler
open List TaskCompletionNode

variable {x : String} {s : TaskStatus} {w : World}

inductive StatusCall where
  | report (node : TaskCompletionNode) (r : Completion)
  | cancel (taskId tenantId : String) (isSuperAdmin : Bool)

def StatusCall.program (schedule : List Nat) : StatusCall → Py Unit
  | .report node r => (node.handleCompletion schedule r).void
  | .cancel taskId tenantId isSuperAdmin =>
    (TaskCancellationService.cancel taskId tenantId isSuperAdmin).void

def statusSystem : System Command Fault World PyErr (StatusCall × List Nat) ℚ where
  apply := Command.apply
  program call := call.1.program call.2
  ambient := .advance

def TaskStatus.Terminal (s : TaskStatus) : Prop := s = .completed ∨ s = .failed ∨ s = .cancelled

def Uses (A : StatusCall → Prop) (ms : List (Move (StatusCall × List Nat) ℚ Fault)) : Prop :=
  ∀ call schedule, .start (call, schedule) ∈ ms → A call

/-- In every run of calls from `A`, a terminal status of the row `x` stays. -/
def Absorbing (x : String) (A : StatusCall → Prop) : Prop :=
  ∀ (w : World) (ms ms' : List (Move (StatusCall × List Nat) ℚ Fault)) (s : TaskStatus),
    Uses A (ms ++ ms') → s.Terminal → HasStatus x s (statusSystem.run (Sys.init w) ms).world →
      HasStatus x s (statusSystem.run (Sys.init w) (ms ++ ms')).world

namespace StatusCall

/-- A report about `x` whose transaction the tables accept once its status is accepted. -/
def Reports (x text : String) : StatusCall → Prop
  | .report node r => node.hasDb = true ∧ r.taskId = x ∧ r.status = text ∧ r.Fits
  | .cancel _ _ _ => False

/-- A report of a status that the column accepts and the state machine is not asked about. -/
def Overrides (x : String) (call : StatusCall) : Prop :=
  ∃ text, call.Reports x text ∧ text ≠ "completed" ∧ text ≠ "failed" ∧
    (TaskStatus.ofText text).isSome = true

end StatusCall

def statusOf (x : String) (w : World) : Option TaskStatus := (w.db.tasks.find x).map TaskRecord.status

theorem hasStatus_iff : HasStatus x s w ↔ statusOf x w = some s := by
  unfold HasStatus RowIs statusOf
  exact Option.map_eq_some_iff.symm

/-- The command leaves the status of the row, or sets it to `s`; it creates no row. -/
def Command.Toward (x : String) (s : TaskStatus) (cmd : Command) : Prop :=
  ∀ w, statusOf x (w.exec cmd) = statusOf x w ∨
    (statusOf x w ≠ none ∧ statusOf x (w.exec cmd) = some s)

section
variable {cmd : Command} {write : DbWrite}

theorem toward_of_leaves (hl : cmd.leaves x) (hu : cmd.untyped) : cmd.Toward x s := by
  intro w
  refine .inl ?_
  rcases db_exec w cmd with hdb | ⟨writes, db', rfl, hc, hdb⟩
  · rw [statusOf, hdb, statusOf]
  · cases hr : w.db.tasks.find x with
    | none => rw [statusOf, statusOf, hdb, Mysql.absent_commit hu hc hr, hr]
    | some r =>
      obtain ⟨r', hr', hs, _⟩ := Mysql.find_commit hl hc hr
      rw [statusOf, statusOf, hdb, hr', hr, Option.map_some, Option.map_some, hs]

theorem toward_of_refused {writes : List DbWrite}
    (h : ∀ (db : Mysql) now, ∃ e, db.commit now writes = .error e) : (Command.commit writes).Toward x s := by
  intro w
  obtain ⟨e, he⟩ := h w.db w.redis.clock
  exact .inl (by simp [World.exec, he])

theorem statusOf_write {now : ℚ} {db db' : Mysql}
    (hw : (∃ text outputData errorMessage, write = .updateTask x text outputData errorMessage ∧
      TaskStatus.ofText text = some s) ∨ write = .setStatus x s) (h : db.write now write = .ok db') :
    (db'.tasks.find x).map TaskRecord.status = (db.tasks.find x).map fun _ => s := by
  have hu {f : TaskRecord → TaskRecord} {hf : ∀ r, (f r).taskId = r.taskId}
      (hs : ∀ r, (f r).status = s) :
      ((db.updateWhere (·.taskId = x) f hf).tasks.find x).map TaskRecord.status =
        (db.tasks.find x).map fun _ => s := by
    rw [Mysql.find_updateWhere]
    cases hr : db.tasks.find x with
    | none => rfl
    | some r =>
      have hx := ((Table.find_eq_some_iff _ _ _).mp hr).2
      simp [hx, hs]
  rcases hw with ⟨text, outputData, errorMessage, rfl, ht⟩ | rfl
  · simp only [Mysql.write, ht] at h
    cases h
    exact hu fun _ => rfl
  · cases h
    exact hu fun _ => rfl

theorem toward_of_write
    (hw : (∃ text outputData errorMessage, write = .updateTask x text outputData errorMessage ∧
      TaskStatus.ofText text = some s) ∨ write = .setStatus x s) {outbox : List DbWrite} (ho : ∀ o ∈ outbox, o.tracks) :
    (Command.commit (write :: outbox)).Toward x s := by
  intro w
  rcases db_exec w (.commit (write :: outbox)) with hdb | ⟨writes, db', heq, hc, hdb⟩
  · exact .inl (by rw [statusOf, hdb, statusOf])
  · cases heq
    simp only [Mysql.commit] at hc
    split at hc
    · cases hc
    · rename_i db₁ hdb₁
      have hs : statusOf x (w.exec (.commit (write :: outbox))) = (w.db.tasks.find x).map fun _ => s := by
        rw [statusOf, hdb, Mysql.tasks_commit ho hc, statusOf_write hw hdb₁]
      rw [hs]
      cases hr : w.db.tasks.find x with
      | none => exact .inl (by simp [statusOf, hr])
      | some r => exact .inr ⟨by simp [statusOf, hr], rfl⟩

theorem statusOf_apply {w : World} (i : Fault) (hc : cmd.Toward x s) :
    statusOf x (cmd.apply i w) = statusOf x w ∨
      (statusOf x w ≠ none ∧ statusOf x (cmd.apply i w) = some s) := by
  unfold Command.apply
  split
  · exact hc w
  · exact .inl rfl

end

/-- From `s₀` the calls of `A` can move the row `x` to `s₁` only, and from there nowhere. -/
structure Course (x : String) (A : StatusCall → Prop) (s₀ s₁ : TaskStatus) : Prop where
  complete : s₀ = .running ∨ s₁ = .running → (∃ call, A call ∧ call.Reports x "completed") → s₁ = .completed
  fail : s₀ = .running ∨ s₁ = .running → (∃ call, A call ∧ call.Reports x "failed") → s₁ = .failed
  cancel : s₀ = .queued ∨ s₁ = .queued → s₁ = .cancelled
  terminal : s₀.Terminal → s₁ = s₀

/-- The status of the row `x` when it was `s₀` first; a row that was missing stays missing. -/
def OnCourse (x : String) (s₀ : Option TaskStatus) (s₁ : TaskStatus) (w : World) : Prop :=
  statusOf x w = s₀ ∨ (s₀ ≠ none ∧ statusOf x w = some s₁)

variable {A : StatusCall → Prop} {s₀ : Option TaskStatus} {s₁ : TaskStatus}

theorem exists_course (hb : ¬ ((∃ call, A call ∧ call.Reports x "completed") ∧
    ∃ call, A call ∧ call.Reports x "failed")) (s : TaskStatus) : ∃ s₁, Course x A s s₁ := by
  cases s with
  | running =>
    by_cases hf : ∃ call, A call ∧ call.Reports x "failed"
    · exact ⟨.failed, fun _ h => absurd ⟨h, hf⟩ hb, fun _ _ => rfl, by simp,
        by simp [TaskStatus.Terminal]⟩
    · exact ⟨.completed, fun _ _ => rfl, fun _ h => absurd h hf, by simp, by simp [TaskStatus.Terminal]⟩
  | queued => exact ⟨.cancelled, by simp, by simp, fun _ => rfl, by simp [TaskStatus.Terminal]⟩
  | pending => exact ⟨.pending, by simp, by simp, by simp, fun _ => rfl⟩
  | scheduled => exact ⟨.scheduled, by simp, by simp, by simp, fun _ => rfl⟩
  | completed => exact ⟨.completed, by simp, by simp, by simp, fun _ => rfl⟩
  | failed => exact ⟨.failed, by simp, by simp, by simp, fun _ => rfl⟩
  | cancelled => exact ⟨.cancelled, by simp, by simp, by simp, fun _ => rfl⟩

theorem onCourse_apply {w : World} {cmd : Command} (i : Fault) (hc : cmd.Toward x s₁)
    (h : OnCourse x s₀ s₁ w) : OnCourse x s₀ s₁ (cmd.apply i w) := by
  rcases statusOf_apply (w := w) i hc with hs | ⟨hr, hm⟩
  · unfold OnCourse
    rwa [hs]
  · refine .inr ⟨fun hn => ?_, hm⟩
    rcases h with h | ⟨hso, _⟩
    · exact hr (h.trans hn)
    · exact hso hn

theorem status_onCourse (hc : ∀ s, s₀ = some s → Course x A s s₁) {w : World} (hw : OnCourse x s₀ s₁ w)
    {row : TaskRecord} (hr : w.db.tasks.find x = some row) :
    ∃ s, Course x A s s₁ ∧ (row.status = s ∨ row.status = s₁) := by
  have hst : statusOf x w = some row.status := by rw [statusOf, hr, Option.map_some]
  rcases hw with h | ⟨hso, h⟩
  · exact ⟨row.status, hc _ (h.symm.trans hst), .inl rfl⟩
  · obtain ⟨s, hs⟩ := Option.ne_none_iff_exists'.mp hso
    exact ⟨s, hc s hs, .inr (Option.some.inj (hst.symm.trans h))⟩

/-- A report moves a task along its course, or not at all. -/
theorem toward_report (hco : ∀ s, s₀ = some s → Course x A s s₁) {node : TaskCompletionNode} {r : Completion}
    (hA : A (.report node r)) (hov : ∀ call, A call → ¬ call.Overrides x) :
    ReportScope (OnCourse x s₀ s₁) (Command.Toward x s₁) node r where
  read := toward_of_leaves trivial trivial
  post _ := toward_of_leaves trivial trivial
  done := toward_of_leaves trivial trivial
  retry _ _ := toward_of_leaves trivial trivial
  track write hwr := toward_of_leaves
    (forall_mem_singleton.mpr (DbWrite.leaves_of_tracks hwr x))
    (forall_mem_singleton.mpr (DbWrite.untyped_of_tracks hwr))
  persist hdb w write outbox hw hwr hou := by
    have hl : ∀ o ∈ outbox, o.leaves x := fun o ho => DbWrite.leaves_of_tracks (hou.tracks o ho) x
    have hu : ∀ o ∈ outbox, o.untyped := fun o ho => DbWrite.untyped_of_tracks (hou.tracks o ho)
    rcases persistWrite_eq_ok hwr with
      ⟨old, next, hold, hn, rfl⟩ | ⟨_, record, hty, rfl⟩
    · by_cases hx : r.taskId = x
      · by_cases hf : r.Fits
        · obtain ⟨s, hs, hst⟩ := status_onCourse hco hw (hx ▸ hold)
          rw [hx]
          rcases nextStatus_eq_ok hn with ⟨hro, ht, rfl⟩ | ⟨hc, hfa, rfl⟩
          · have hr : s = .running ∨ s₁ = .running :=
              hst.imp (fun h => h.symm.trans hro) fun h => h.symm.trans hro
            refine toward_of_write (.inl ⟨_, _, _, rfl, ?_⟩) hou.tracks
            rcases ht with ht | ht
            · rw [ht, hs.complete hr ⟨_, hA, hdb, hx, ht, hf⟩]
              decide
            · rw [ht, hs.fail hr ⟨_, hA, hdb, hx, ht, hf⟩]
              decide
          · refine toward_of_refused fun db now => refused_of_text ?_ _ _ _ db now
            cases ht : TaskStatus.ofText r.status with
            | none => rfl
            | some s' =>
              exact absurd ⟨r.status, ⟨hdb, hx, rfl, hf⟩, hc, hfa, by rw [ht]; rfl⟩
                (hov _ hA)
        · exact toward_of_refused fun db now => refused_of_unfit hf hou _ db now
      · exact toward_of_leaves (forall_mem_cons.mpr ⟨hx, hl⟩)
          (forall_mem_cons.mpr ⟨trivial, hu⟩)
    · exact toward_of_leaves (forall_mem_cons.mpr ⟨trivial, hl⟩)
        (forall_mem_cons.mpr ⟨hty, hu⟩)

theorem queued_of_transition {s s' : TaskStatus} (h : TaskStateMachine.transition s .cancel = .ok s') :
    s = .queued ∧ s' = .cancelled := by
  cases s with
  | queued =>
    cases h
    exact ⟨rfl, rfl⟩
  | _ => cases h

theorem toward_cancel (hc : ∀ s, s₀ = some s → Course x A s s₁) (taskId tenantId : String)
    (isSuperAdmin : Bool) : Issues (OnCourse x s₀ s₁) (Command.Toward x s₁) (fun _ => True)
      (TaskCancellationService.cancel taskId tenantId isSuperAdmin) := by
  have hr : Command.read.Toward x s₁ := toward_of_leaves trivial trivial
  refine Issues.bind (Q := fun task => ∃ w, OnCourse x s₀ s₁ w ∧ w.db.tasks.find taskId = some task)
    (issues_await hr fun w task hw ht => ⟨w, hw, ?_⟩) ?_
  · unfold TaskAccessPolicy.ensureTaskAccess at ht
    split at ht
    · cases ht
    · rename_i row hro
      split at ht
      · cases ht
      · rw [hro, Except.ok.inj ht]
  · rintro task ⟨w, hw, hro⟩
    dsimp only
    split
    · trivial
    · split
      · trivial
      · rename_i next hn
        obtain ⟨hq, rfl⟩ := queued_of_transition hn
        refine Issues.bind (issues_commit ?_) fun _ _ => trivial
        by_cases hx : taskId = x
        · subst hx
          obtain ⟨s, hs, hst⟩ := status_onCourse hc hw hro
          obtain rfl := hs.cancel (hst.imp (fun h => h.symm.trans hq) fun h => h.symm.trans hq)
          exact toward_of_write (.inr rfl)
            fun _ ho => absurd ho not_mem_nil
        · exact toward_of_leaves (forall_mem_singleton.mpr hx) (forall_mem_singleton.mpr trivial)

theorem toward_call (hc : ∀ s, s₀ = some s → Course x A s s₁) {call : StatusCall} (hA : A call)
    (ho : ∀ call, A call → ¬ call.Overrides x) (schedule : List Nat) :
    Issues (OnCourse x s₀ s₁) (Command.Toward x s₁) (fun _ => True) (call.program schedule) := by
  cases call with
  | report node r =>
    exact (issues_handleCompletion_of_scope (toward_report hc hA ho) schedule).void
  | cancel taskId tenantId isSuperAdmin => exact (toward_cancel hc taskId tenantId isSuperAdmin).void

/-- With one course for every status the terminal statuses are absorbing. -/
theorem absorbing_of_course (ho : ∀ call, A call → ¬ call.Overrides x)
    (hco : ∀ s, ∃ s₁, Course x A s s₁) : Absorbing x A := by
  intro w ms ms' s hu ht hst
  obtain ⟨s₁, hs₁⟩ : ∃ s₁, ∀ s, statusOf x w = some s → Course x A s s₁ := by
    cases h : statusOf x w with
    | none => exact ⟨.pending, fun _ h => nomatch h⟩
    | some s =>
      obtain ⟨s₁, hs₁⟩ := hco s
      exact ⟨s₁, fun s' hs' => Option.some.inj hs' ▸ hs₁⟩
  have ha (t : ℚ) : (Command.advance t).Toward x s₁ := toward_of_leaves trivial trivial
  have hpr {ms : List (Move (StatusCall × List Nat) ℚ Fault)} (hms : Uses A ms)
      (r : StatusCall × List Nat) (hr : .start r ∈ ms) :
      Issues (OnCourse x (statusOf x w) s₁) (Command.Toward x s₁) (fun _ => True) (statusSystem.program r) :=
    toward_call hs₁ (hms r.1 r.2 hr) ho r.2
  obtain ⟨hon, hpro⟩ := System.run_invariant_of_moves (S := statusSystem)
    (J := fun _ => OnCourse x (statusOf x w) s₁) (fun _ _ h => h)
    (fun _ _ c i hc h => onCourse_apply i hc h)
    (hpr fun call schedule h => hu call schedule (mem_append_left _ h)) (fun t _ _ => ha t)
    (s := Sys.init w) (fun _ hp => absurd hp not_mem_nil) (.inl rfl)
  -- a terminal status on course is the last one of it
  have hl : s = s₁ := by
    have hs := hasStatus_iff.mp hst
    rcases hon with h | ⟨_, h⟩
    · exact ((hs₁ s (h.symm.trans hs)).terminal ht).symm
    · exact Option.some.inj (hs.symm.trans h)
  subst hl
  rw [System.run_append]
  refine (System.run_invariant_of_moves (S := statusSystem) (J := fun _ w' => statusOf x w' = some s ∧
    OnCourse x (statusOf x w) s w') (fun _ _ h => h.2) ?_
    (hpr fun call schedule h => hu call schedule (mem_append_right _ h)) (fun t _ _ => ha t) hpro
    ⟨hasStatus_iff.mp hst, hon⟩).1.1 |> hasStatus_iff.mpr
  rintro _ w' c i hc ⟨hs, h⟩
  refine ⟨?_, onCourse_apply i hc h⟩
  rcases statusOf_apply (w := w') i hc with hsa | ⟨_, hm⟩
  · exact hsa.trans hs
  · exact hm

theorem hasStatus_storing (x : String) (s : TaskStatus) : HasStatus x s (World.storing (bareRow x s)) :=
  ⟨bareRow x s, find_storing _, rfl⟩

theorem hasStatus_unique {s' : TaskStatus} (h : HasStatus x s w) (h' : HasStatus x s' w) : s = s' :=
  Option.some.inj ((hasStatus_iff.mp h).symm.trans (hasStatus_iff.mp h'))

section
variable {node : TaskCompletionNode} {r : Completion} {s : TaskStatus} {w : World}

theorem hasStatus_report (hdb : node.hasDb = true) (hf : r.Fits)
    {s' : TaskStatus} {text : String} (hn : TaskCompletionNode.nextStatus s r.status = .ok text)
    (ht : TaskStatus.ofText text = some s') (hw : HasStatus r.taskId s w) :
    HasStatus r.taskId s' ((node.handleCompletion [] r).void.runWith Command.apply .ok w).2 := by
  rw [Prog.runWith_void]
  exact hasStatus_handleCompletion hdb hn ht hf [] hw

theorem not_overrides_of_absorbing (ha : Absorbing x A) {call : StatusCall} (hA : A call) :
    ¬ call.Overrides x := by
  rintro ⟨text, hr, hc, hf, hsto⟩
  cases call with
  | cancel taskId tenantId isSuperAdmin => exact hr
  | report node r =>
    obtain ⟨hdb, rfl, rfl, hfi⟩ := hr
    obtain ⟨s', hte⟩ := Option.isSome_iff_exists.mp hsto
    obtain ⟨s, ht, hne⟩ : ∃ s : TaskStatus, s.Terminal ∧ s ≠ s' := by
      by_cases h : s' = .completed
      · exact ⟨.failed, .inr (.inl rfl), fun h' => by rw [← h'] at h; cases h⟩
      · exact ⟨.completed, .inl rfl, fun h' => h h'.symm⟩
    have hn : TaskCompletionNode.nextStatus s r.status = .ok r.status := by
      rw [TaskCompletionNode.nextStatus, if_neg hc, if_neg hf]
    have hro := hasStatus_storing r.taskId s
    obtain ⟨ms, hs, hw, _⟩ := System.run_request (S := statusSystem) .ok (.report node r, [])
      (World.storing (bareRow r.taskId s)) []
    have hu : Uses A ([] ++ ms) := by
      intro call schedule h
      cases hs _ h
      exact hA
    have hst := ha (World.storing (bareRow r.taskId s)) [] ms s hu ht hro
    have hm := hasStatus_report hdb hfi hn hte hro
    exact hne (hasStatus_unique hst (hw ▸ hm))

theorem handleCompletion_select (hdb : node.hasDb = true) (r : Completion) :
    ∃ next, (node.handleCompletion [] r).void = .act .read next ∧
      ∀ w, next .ok w = ((Prog.gather Fault.interrupt []
        [session (TaskCompletionNode.persistRow r (w.db.tasks.find r.taskId)), node.triggerCallback r]).bind
          fun _ => .ret true).void := by
  unfold TaskCompletionNode.handleCompletion
  rw [persist_eq hdb]
  exact ⟨_, rfl, fun w => rfl⟩

theorem failed_after_select (hs : r.status = "failed")
    (hf : r.Fits) {row : TaskRecord} (hr : row.status = .running) (hw : HasStatus r.taskId s w) :
    HasStatus r.taskId .failed ((((Prog.gather Fault.interrupt []
      [session (TaskCompletionNode.persistRow r (some row)), node.triggerCallback r]).bind
        fun _ => .ret true).void).runWith Command.apply .ok w).2 := by
  have hv : TaskStatus.ofText TaskStatus.failed.value = some .failed := by decide
  rw [Prog.runWith_void, world_gather]
  refine hasStatus_gather (P := fun _ _ => True) ?_ node r [] ?_
  · have hn : TaskCompletionNode.nextStatus row.status r.status = .ok TaskStatus.failed.value := by
      rw [hr, hs]
      rfl
    refine achieves_session (achieves_persistRow (hasStatus_event r.taskId)
      (fun w outbox hw ho => ?_) hn)
    obtain ⟨row', hr', -⟩ := hw
    exact hasStatus_final hv hf ⟨row', hr'⟩ ho
  · obtain ⟨row', hr', _⟩ := hw
    exact ⟨row', hr', trivial⟩

theorem not_both_of_absorbing (ha : Absorbing x A) :
    ¬ ((∃ call, A call ∧ call.Reports x "completed") ∧ ∃ call, A call ∧ call.Reports x "failed") := by
  rintro ⟨⟨call₁, hA₁, hr₁⟩, ⟨call₂, hA₂, hr₂⟩⟩
  cases call₁ with
  | cancel taskId tenantId isSuperAdmin => exact hr₁
  | report node₁ r₁ =>
    cases call₂ with
    | cancel taskId tenantId isSuperAdmin => exact hr₂
    | report node₂ r₂ =>
      obtain ⟨hdb₁, rfl, hs₁, hf₁⟩ := hr₁
      obtain ⟨hdb₂, hid, hs₂, hf₂⟩ := hr₂
      obtain ⟨next, hs, hn⟩ := handleCompletion_select hdb₂ r₂
      have hw := hasStatus_storing r₁.taskId .running
      generalize World.storing (bareRow r₁.taskId .running) = w at hw
      have ⟨row, hro, hr⟩ := hw
      -- the failed report has read the row when the completed one starts and ends
      obtain ⟨ms, ms', hst, hwo, hw'⟩ := System.run_overtaken (S := statusSystem) .ok
        (.report node₁ r₁, []) (.report node₂ r₂, []) hs w
      have hu : Uses A (ms ++ ms') := by
        intro call schedule h
        rcases hst _ h with h | h
        · cases h
          exact hA₁
        · cases h
          exact hA₂
      have hc : HasStatus r₁.taskId .completed (statusSystem.run (Sys.init w) ms).world := by
        have hn₁ : TaskCompletionNode.nextStatus .running r₁.status = .ok TaskStatus.completed.value := by
          rw [hs₁]
          rfl
        rw [hwo]
        exact hasStatus_report hdb₁ hf₁ hn₁ (by decide) hw
      have hf : HasStatus r₁.taskId .failed (statusSystem.run (Sys.init w) (ms ++ ms')).world := by
        rw [hw', ← hwo, hn w, hid, hro, ← hid]
        exact failed_after_select hs₂ hf₂ hr (hid ▸ hc)
      cases hasStatus_unique (ha w ms ms' .completed hu (.inl rfl) hc) hf

end

/-- A terminal status of the row `x` stays in every run of calls from `A`, exactly when none of them
reports another status about `x` than `completed` and `failed` (of those the column accepts), and they
do not report both of these. -/
theorem terminal_status_absorbing_iff (x : String) (A : StatusCall → Prop) :
    Absorbing x A ↔ (∀ call, A call → ¬ call.Overrides x) ∧
      ¬ ((∃ call, A call ∧ call.Reports x "completed") ∧ ∃ call, A call ∧ call.Reports x "failed") := by
  constructor
  · intro ha
    exact ⟨fun call hA => not_overrides_of_absorbing ha hA, not_both_of_absorbing ha⟩
  · rintro ⟨ho, hb⟩
    exact absorbing_of_course ho (exists_course hb)

/-- A late report of another status, and two reports of one running task that overlap. -/
def lateReport : List (Move (StatusCall × List Nat) ℚ Fault) :=
  .start (.report .plain { taskId := "t", status := "cancelled" }, []) :: List.replicate 6 (.step 0 .ok)

def overlappingReports : List (Move (StatusCall × List Nat) ℚ Fault) :=
  [.start (.report .plain { taskId := "t", status := "failed" }, []),
    .start (.report .plain { taskId := "t", status := "completed" }, []), .step 0 .ok] ++
    List.replicate 6 (.step 1 .ok)

theorem terminal_status_overwritten :
    statusOf "t" (World.storing (bareRow "t" .completed)) = some .completed ∧
    statusOf "t" (statusSystem.run (Sys.init (World.storing (bareRow "t" .completed))) lateReport).world =
      some .cancelled ∧ statusOf "t" (statusSystem.run (Sys.init (World.storing (bareRow "t" .running)))
      overlappingReports).world = some .completed ∧
    statusOf "t" (statusSystem.run (Sys.init (World.storing (bareRow "t" .running)))
      (overlappingReports ++ List.replicate 6 (.step 0 .ok))).world = some .failed := by
  decide +kernel

end AsyncScheduler
