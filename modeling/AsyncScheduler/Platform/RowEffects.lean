import AsyncScheduler.Platform.World

/-!
# Effects on the row of a task

What a write and a commit can do to the status and the type of a stored task.
-/

namespace AsyncScheduler

variable {w : World} {cmd : Command} {x : String}

namespace Mysql
variable {db db' : Mysql}

theorem orElse_eq_ok {bad : Option PyErr} (h : orElse bad db = .ok db') : db' = db := by
  unfold orElse at h
  split at h
  · cases h
  · exact (Except.ok.inj h).symm

theorem find_updateWhere (db : Mysql) (p : TaskRecord → Bool) (f : TaskRecord → TaskRecord)
    (hf : ∀ r, (f r).taskId = r.taskId) (x : String) :
    (db.updateWhere p f hf).tasks.find x = (db.tasks.find x).map fun r => if p r then f r else r := by
  rw [updateWhere, Table.find_modify]

theorem find_updateWhere_of_ne {p : TaskRecord → Bool} {f : TaskRecord → TaskRecord}
    {hf : ∀ r, (f r).taskId = r.taskId} {x : String} (hp : ∀ r, r.taskId = x → p r = false) :
    (db.updateWhere p f hf).tasks.find x = db.tasks.find x := by
  rw [find_updateWhere]
  cases hr : db.tasks.find x with
  | none => rfl
  | some r =>
    have hx := ((Table.find_eq_some_iff _ _ _).mp hr).2
    simp [hp r hx]

theorem write_insertTask {now : ℚ} {record : TaskInsert} (h : db.write now (.insertTask record) = .ok db') :
    ∃ row tasks, record.toRow now = .ok row ∧ db.tasks.insert row = some tasks ∧
      db' = { db with tasks } := by
  simp only [write] at h
  split at h
  · cases h
  · rename_i row hr
    split at h
    · cases h
    · rename_i tasks ht
      exact ⟨row, tasks, hr, ht, (Except.ok.inj h).symm⟩

end Mysql

theorem TaskInsert.toRow_eq_ok {record : TaskInsert} {now : ℚ} {row : TaskRecord} (h : record.toRow now = .ok row) :
    row.taskId = record.taskId ∧ record.taskType = some row.taskType ∧
      TaskStatus.ofText record.status = some row.status ∧ row.tenantId = record.tenantId ∧
      row.idempotencyKey = record.idempotencyKey := by
  unfold toRow at h
  split at h
  · cases h
  · split at h
    · cases h
    · split at h
      · cases h
      · rename_i _ ht _ _ _ status hs
        cases h
        exact ⟨rfl, ht, hs, rfl, rfl⟩

namespace DbWrite

def leaves (x : String) : DbWrite → Prop
  | .updateTask id _ _ _ | .setStatus id _ => id ≠ x
  | _ => True

def tracks : DbWrite → Bool
  | .insertTaskRun _ | .insertDagRun _ | .insertTaskEvent _ | .insertOutbox _ | .updateOutbox _ _ => true
  | _ => false

def untyped : DbWrite → Prop
  | .insertTask record => record.taskType = none
  | _ => True

theorem leaves_of_tracks {write : DbWrite} (h : write.tracks) (x : String) : write.leaves x := by
  cases write with
  | updateTask _ _ _ _ => cases h
  | setStatus _ _ => cases h
  | _ => trivial

theorem untyped_of_tracks {write : DbWrite} (h : write.tracks) : write.untyped := by
  cases write with
  | insertTask _ => cases h
  | _ => trivial

end DbWrite

namespace Mysql
variable {now : ℚ} {db db' : Mysql} {x : String} {r : TaskRecord}
variable {write : DbWrite} {writes : List DbWrite}

theorem tasks_write (ht : write.tracks) (h : db.write now write = .ok db') : db'.tasks = db.tasks := by
  cases write with
  | insertTaskRun row | insertDagRun row | insertTaskEvent row | insertOutbox row => rw [orElse_eq_ok h]
  | updateOutbox id u =>
    cases h
    rfl
  | _ => cases ht

/-- A write that leaves a task alone keeps its status and type. -/
theorem find_write (hl : write.leaves x) (h : db.write now write = .ok db') (hr : db.tasks.find x = some r) :
    ∃ r', db'.tasks.find x = some r' ∧ r'.status = r.status ∧ r'.taskType = r.taskType := by
  cases write with
  | insertTask record =>
    obtain ⟨row, tasks, _, ht, rfl⟩ := write_insertTask h
    exact ⟨r, Table.find_insert_of_some ht hr, rfl, rfl⟩
  | updateTask id status outputData errorMessage =>
    simp only [write] at h
    split at h
    · cases h
    · cases h
      refine ⟨r, ?_, rfl, rfl⟩
      rw [find_updateWhere_of_ne, hr]
      exact fun s hs => decide_eq_false (hs ▸ hl.symm)
  | setStatus id status =>
    cases h
    refine ⟨r, ?_, rfl, rfl⟩
    rw [find_updateWhere_of_ne, hr]
    exact fun s hs => decide_eq_false (hs ▸ hl.symm)
  | bumpAttempts ids =>
    cases h
    rw [find_updateWhere, hr]
    refine ⟨_, rfl, ?_⟩
    dsimp only
    split <;> exact ⟨rfl, rfl⟩
  | insertTaskRun row => exact ⟨r, by rw [tasks_write rfl h, hr], rfl, rfl⟩
  | insertDagRun row => exact ⟨r, by rw [tasks_write rfl h, hr], rfl, rfl⟩
  | insertTaskEvent row => exact ⟨r, by rw [tasks_write rfl h, hr], rfl, rfl⟩
  | insertOutbox row => exact ⟨r, by rw [tasks_write rfl h, hr], rfl, rfl⟩
  | updateOutbox id u => exact ⟨r, by rw [tasks_write rfl h, hr], rfl, rfl⟩

theorem absent_write (hu : write.untyped) (h : db.write now write = .ok db')
    (hr : db.tasks.find x = none) : db'.tasks.find x = none := by
  cases write with
  | insertTask record =>
    obtain ⟨row, _, hro, _, _⟩ := write_insertTask h
    have ht := (TaskInsert.toRow_eq_ok hro).2.1
    rw [show record.taskType = none from hu] at ht
    cases ht
  | updateTask id status outputData errorMessage =>
    simp only [write] at h
    split at h
    · cases h
    · cases h
      rw [find_updateWhere, hr, Option.map_none]
  | setStatus id status =>
    cases h
    rw [find_updateWhere, hr, Option.map_none]
  | bumpAttempts ids =>
    cases h
    rw [find_updateWhere, hr, Option.map_none]
  | insertTaskRun row => rw [tasks_write rfl h, hr]
  | insertDagRun row => rw [tasks_write rfl h, hr]
  | insertTaskEvent row => rw [tasks_write rfl h, hr]
  | insertOutbox row => rw [tasks_write rfl h, hr]
  | updateOutbox id u => rw [tasks_write rfl h, hr]

theorem write_updateTask (now : ℚ) {status : TaskStatus} {text : String}
    (ht : TaskStatus.ofText text = some status) (hr : db.tasks.find x = some r) (outputData : Option String) (errorMessage : String) :
    ∃ db' r', db.write now (.updateTask x text outputData errorMessage) = .ok db' ∧
      db'.tasks.find x = some r' ∧ r'.status = status := by
  have hx := ((Table.find_eq_some_iff _ _ _).mp hr).2
  simp only [write, ht]
  refine ⟨_, { r with
    status, outputData, updatedAt := now
    errorMessage := if errorMessage = "" then r.errorMessage else some errorMessage }, rfl, ?_, rfl⟩
  rw [find_updateWhere, hr, Option.map_some, if_pos (decide_eq_true hx)]

theorem find_commit (hl : ∀ w ∈ writes, w.leaves x)
    (h : db.commit now writes = .ok db') (hr : db.tasks.find x = some r) :
    ∃ r', db'.tasks.find x = some r' ∧ r'.status = r.status ∧ r'.taskType = r.taskType := by
  induction writes generalizing db r with
  | nil =>
    cases h
    exact ⟨r, hr, rfl, rfl⟩
  | cons w ws ih =>
    simp only [commit] at h
    split at h
    · cases h
    · rename_i db₁ hw
      obtain ⟨r₁, hr₁, hs, ht⟩ := find_write (hl w List.mem_cons_self) hw hr
      obtain ⟨r₂, hr₂, hs₂, ht₂⟩ := ih (fun v hv => hl v (List.mem_cons_of_mem _ hv)) h hr₁
      exact ⟨r₂, hr₂, hs₂.trans hs, ht₂.trans ht⟩

theorem absent_commit (hu : ∀ w ∈ writes, w.untyped)
    (h : db.commit now writes = .ok db') (hr : db.tasks.find x = none) : db'.tasks.find x = none := by
  induction writes generalizing db with
  | nil =>
    cases h
    exact hr
  | cons w ws ih =>
    simp only [commit] at h
    split at h
    · cases h
    · rename_i db₁ hw
      exact ih (fun v hv => hu v (List.mem_cons_of_mem _ hv)) h
        (absent_write (hu w List.mem_cons_self) hw hr)

theorem tasks_commit (ht : ∀ w ∈ writes, w.tracks)
    (h : db.commit now writes = .ok db') : db'.tasks = db.tasks := by
  induction writes generalizing db with
  | nil =>
    cases h
    rfl
  | cons w ws ih =>
    simp only [commit] at h
    split at h
    · cases h
    · rename_i db₁ hw
      rw [ih (fun v hv => ht v (List.mem_cons_of_mem _ hv)) h,
        tasks_write (ht w List.mem_cons_self) hw]

end Mysql

def Command.leaves (x : String) : Command → Prop
  | .commit writes => ∀ w ∈ writes, w.leaves x
  | _ => True

def Command.untyped : Command → Prop
  | .commit writes => ∀ w ∈ writes, w.untyped
  | _ => True

def RowIs (x : String) (P : TaskStatus → String → Prop) (w : World) : Prop :=
  ∃ r, w.db.tasks.find x = some r ∧ P r.status r.taskType

theorem db_exec (w : World) (cmd : Command) :
    (w.exec cmd).db = w.db ∨
      ∃ writes db', cmd = .commit writes ∧ w.db.commit w.redis.clock writes = .ok db' ∧
        (w.exec cmd).db = db' := by
  cases cmd with
  | commit writes =>
    cases h : w.db.commit w.redis.clock writes with
    | error e => exact .inl (by simp [World.exec, h])
    | ok db' => exact .inr ⟨writes, db', rfl, h, by simp [World.exec, h]⟩
  | memory op =>
    refine .inl ?_
    cases op with
    | acquirePermit n =>
      simp only [World.exec]
      split <;> rfl
    | _ => rfl
  | advance t =>
    refine .inl ?_
    simp only [World.exec]
    split <;> rfl
  | _ => exact .inl rfl

theorem rowIs_apply {P : TaskStatus → String → Prop}
    (i : Fault) (hl : cmd.leaves x) (h : RowIs x P w) : RowIs x P (cmd.apply i w) := by
  unfold Command.apply
  split
  · rcases db_exec w cmd with hdb | ⟨writes, db', rfl, hc, hdb⟩
    · unfold RowIs
      rwa [hdb]
    · obtain ⟨r, hr, hP⟩ := h
      obtain ⟨r', hr', hs, ht⟩ := Mysql.find_commit hl hc hr
      exact ⟨r', by rw [hdb, hr'], by rwa [hs, ht]⟩
  · exact h

theorem status_of_apply {i : Fault} {r' : TaskRecord}
    (hl : cmd.leaves x) (hu : cmd.untyped) (h : (cmd.apply i w).db.tasks.find x = some r') :
    ∃ r, w.db.tasks.find x = some r ∧ r'.status = r.status := by
  unfold Command.apply at h
  split at h
  · rcases db_exec w cmd with hdb | ⟨writes, db', rfl, hc, hdb⟩
    · exact ⟨r', hdb ▸ h, rfl⟩
    · rw [hdb] at h
      cases hr : w.db.tasks.find x with
      | none =>
        rw [Mysql.absent_commit hu hc hr] at h
        cases h
      | some r =>
        obtain ⟨r₁, hr₁, hs, _⟩ := Mysql.find_commit hl hc hr
        exact ⟨r, rfl, Option.some.inj (h.symm.trans hr₁) ▸ hs⟩
  · exact ⟨r', h, rfl⟩

def bareRow (x : String) (s : TaskStatus) : TaskRecord where
  taskId := x
  tenantId := ""
  taskType := ""
  status := s
  priority := .normal
  inputData := none
  outputData := none
  errorMessage := none
  metadataJson := none
  callbackUrl := none
  idempotencyKey := none
  timeoutSeconds := 3600
  maxRetries := 3
  attempt := 0
  scheduledAt := none
  cronExpr := none
  createdAt := 0
  updatedAt := 0

def World.storing (row : TaskRecord) : World :=
  { World.empty with db := { Mysql.empty with tasks := ⟨[row], List.nodup_singleton _⟩ } }

theorem find_storing (row : TaskRecord) : (World.storing row).db.tasks.find row.taskId = some row := by
  simp [World.storing, Table.find]

end AsyncScheduler
