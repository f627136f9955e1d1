import AsyncScheduler.Platform.RowEffects
import AsyncScheduler.Platform.StoreEffects
import AsyncScheduler.Platform.TaskCreator

/-!
# What a creation issues

The commands of one creation, and the order in which it changes the stores: before the insert has
returned it writes nothing else, and afterwards the row stays as it was inserted.
-/

namespace AsyncScheduler

structure StoreAllowed (C : Command → Prop) (kw : TaskKwargs) (taskId tenantId : String) : Prop
    extends Ambient C where
  insert : ∀ priority, C (.commit [.insertTask (kw.taskInsert taskId tenantId priority)])
  cache : ∀ doc, C (.keys [(taskKey taskId, .set (.task doc) (some 86400))])
  transaction : ∀ (id : String) (op : KeyOp), op.doc = none → C (.keys [(txKey id, op)])

structure EnqueueAllowed (C : Command → Prop) (kw : TaskKwargs) (taskId : String) : Prop
    extends Ambient C where
  enqueue : ∀ sc depth ttl, C (.queue (.enqueue kw.capabilityName taskId sc depth ttl))
  track : ∀ write : DbWrite, write.tracks → C (.commit [write])

/-- The commands of a creation once the lookup found nothing. -/
structure CreateAllowed (C : Command → Prop) (kw : TaskKwargs) (taskId tenantId : String) : Prop
    extends StoreAllowed C kw taskId tenantId, EnqueueAllowed C kw taskId

namespace TaskCreator

section Footprint
variable {I : World → Prop} {C : Command → Prop} {kw : TaskKwargs} {taskId tenantId : String}
variable {Q : Option TaskRecord → Prop} {key : Option String}

theorem issues_findExisting (hre : C .read) {key : String}
    (hn : Q none) (hs : ∀ w row, I w → row ∈ w.db.tasks.rows → row.tenantId = tenantId →
      row.idempotencyKey = some key → Q (some row)) : Issues I C Q (findExisting tenantId key) := by
  refine issues_session hre (issues_await hre fun w existing hw hr => ?_)
  split at hr
  · cases hr
    exact hn
  · rename_i row hro
    cases hr
    have hrow := List.mem_filter.mp (hro ▸ List.mem_singleton_self row)
    have hk : row.tenantId = tenantId ∧ row.idempotencyKey = some key := by simpa using hrow.2
    exact hs w row hw hrow.1 hk.1 hk.2
  · cases hr

theorem issues_executeAfterMs (hr : C .read) : Issues I C (fun _ => True) (executeAfterMs kw) := by
  unfold executeAfterMs
  split
  · split
    · exact (issues_immediately (Q := fun _ => True) hr fun _ _ => trivial).bind fun _ _ => trivial
    · trivial
  · trivial

section Store
variable (h : StoreAllowed C kw taskId tenantId) (cr : TaskCreator) (u : CreateInputs)
include h

theorem issues_mysqlWrite : Issues I C (fun _ => True) (mysqlWrite kw taskId tenantId) := by
  refine issues_session h.read ?_
  split
  · trivial
  · exact issues_commit (h.insert _)

theorem issues_syncRedis (co : AtomicWriteCoordinator) (tx : TxRecord) (doc : TaskDoc) :
    Issues I C (fun _ => True) (co.syncRedis tx (redisWrite taskId doc)) := by
  refine issues_exceptException ?_ fun e => ?_
  · exact (issues_perform (h.cache doc)).bind fun _ _ => trivial
  · exact (co.issues_handOver (h.transaction _ _ rfl) fun _ _ => h.transaction _ _ rfl).bind fun _ _ => trivial

theorem issues_store (doc : TaskDoc) : Issues I C (fun _ => True) (cr.store u kw taskId tenantId doc) := by
  unfold store
  split
  · refine Issues.void (Q := fun _ => True) ?_
    refine (QueueManager.issues_time h.toAmbient).bind fun t _ => ?_
    exact (issues_mysqlWrite h).bind fun _ _ => issues_syncRedis h _ _ doc
  · exact issues_exceptException (issues_perform (h.cache doc)) fun _ => trivial

end Store

theorem issues_recordRun (hr : C .read) (ht : ∀ write : DbWrite, write.tracks → C (.commit [write]))
    (u : CreateInputs) : Issues I C (fun _ => True) (recordRun u kw taskId tenantId) := by
  refine (issues_recorded (Q := fun _ => True) hr (ht _ rfl) trivial).bind fun runKey _ => ?_
  have he : Issues I C (fun _ => True) (TaskTimelineService.emit taskId (some runKey) "task_created"
      [("tenant_id", tenantId), ("capability", kw.capabilityName)]) :=
    issues_session hr (issues_commit (ht _ rfl))
  split
  · exact (issues_recorded (Q := fun _ => True) hr (ht _ rfl) trivial).void.bind
      fun _ _ => he
  · exact he

section Enqueue
variable (h : EnqueueAllowed C kw taskId) (cr : TaskCreator) (u : CreateInputs)
include h

theorem issues_enqueueStored (after : ℚ) : Issues I C (fun r => r.taskId = taskId ∧ r.idempotentReused = false)
      (cr.enqueueStored u kw taskId tenantId after) := by
  refine (cr.queueManager.issues_enqueue h.toAmbient _ _ fun sc => h.enqueue sc _ _).bind fun result _ => ?_
  split
  · exact (issues_recordRun h.read h.track u).bind fun _ _ => ⟨rfl, rfl⟩
  · exact ⟨rfl, rfl⟩

end Enqueue

section Allowed
variable (h : CreateAllowed C kw taskId tenantId) (cr : TaskCreator) (u : CreateInputs)
include h

theorem issues_createNew : Issues I C (fun r => r.taskId = taskId ∧ r.idempotentReused = false)
      (cr.createNew u tenantId taskId kw) := by
  refine (issues_executeAfterMs h.read).bind fun after _ => ?_
  refine (QueueManager.issues_time h.toAmbient).bind fun t _ => ?_
  exact (issues_store h.toStoreAllowed cr u _).bind fun _ _ => issues_enqueueStored h.toEnqueueAllowed cr u after

end Allowed

theorem issues_lookup (hr : C .read) (cr : TaskCreator) (hn : Q none)
    (hs : ∀ w row k, I w → given key = some k → row ∈ w.db.tasks.rows → row.tenantId = tenantId →
      row.idempotencyKey = some k → Q (some row)) : Issues I C Q (cr.lookup tenantId key) := by
  unfold lookup
  split
  · rename_i k hk
    split
    · exact issues_findExisting hr hn fun w row hw hrow ht hke =>
        hs w row k hw hk hrow ht hke
    · exact hn
  · exact hn

theorem issues_createTask (cr : TaskCreator) (u : CreateInputs) (h : CreateAllowed C kw (newTaskId u key) tenantId) :
    Issues I C (fun _ => True) (cr.createTask u tenantId key kw) := by
  refine issues_exceptException ?_ fun _ => trivial
  split
  · trivial
  · refine Issues.bind (Q := fun _ => True)
      (issues_lookup h.read cr trivial fun _ _ _ _ _ _ _ _ => trivial) fun existing _ => ?_
    split
    · trivial
    · exact (issues_createNew h cr u).weaken fun _ _ => trivial

end Footprint

def Inserted (kw : TaskKwargs) (taskId : String) (w : World) : Prop :=
  RowIs taskId (fun status taskType => status = .queued ∧ taskType = kw.capabilityName) w

section Along
variable {J : World → Prop} {kw : TaskKwargs} {taskId tenantId : String} {w : World}

theorem leaves_create (x : String) : CreateAllowed (Command.leaves x) kw taskId tenantId where
  read := trivial
  breaker _ := trivial
  register _ := trivial
  insert _ := List.forall_mem_singleton.mpr trivial
  cache _ := trivial
  transaction _ _ _ := trivial
  enqueue _ _ _ := trivial
  track _ hw := List.forall_mem_singleton.mpr (DbWrite.leaves_of_tracks hw x)

theorem inserted_of_commit {now : ℚ} {db' : Mysql} {priority : TaskPriority}
    (h : w.db.commit now [.insertTask (kw.taskInsert taskId tenantId priority)] = .ok db') :
    ∃ r, db'.tasks.find taskId = some r ∧ r.status = .queued ∧ r.taskType = kw.capabilityName := by
  simp only [Mysql.commit] at h
  split at h
  · cases h
  · rename_i db₁ hw
    cases h
    obtain ⟨row, tasks, hrow, ht, rfl⟩ := Mysql.write_insertTask hw
    obtain ⟨hid, hty, hs, _⟩ := TaskInsert.toRow_eq_ok hrow
    refine ⟨row, ?_, ?_, ?_⟩
    · exact (Table.find_insert ht taskId).trans (if_pos hid)
    · have hq : TaskStatus.ofText TaskStatus.queued.value = some .queued := by decide
      exact Option.some.inj (hs.symm.trans hq)
    · exact (Option.some.inj hty).symm

theorem along_inserted {α : Type} {P : α → Prop} {p : Py α} (hrow : ∀ w, Inserted kw taskId w → J w)
    (hp : Issues (Inserted kw taskId) (Command.leaves taskId) P p) (hw : Inserted kw taskId w) :
    Along Command.apply J (fun a w' => P a ∧ Inserted kw taskId w') p w := by
  have hk (c : Command) (i : Fault) (w : World) (hc : c.leaves taskId) (h : Inserted kw taskId w) :
      Inserted kw taskId (c.apply i w) := rowIs_apply i hc h
  exact (Along.of_issues hk hp hw).mono hrow fun _ _ h => h

variable (hinsert : ∀ i w priority, J w →
  J (Command.apply (.commit [.insertTask (kw.taskInsert taskId tenantId priority)]) i w))
include hinsert

theorem along_mysqlWrite (hw : J w) :
    Along Command.apply J (fun _ => Inserted kw taskId) (mysqlWrite kw taskId tenantId) w := by
  refine along_session ?_
  split
  · exact hw
  · rename_i priority _
    refine ⟨hw, fun i => ?_⟩
    have hJ := hinsert i w priority hw
    cases i with
    | ok =>
      cases hc : w.db.commit w.redis.clock [.insertTask (kw.taskInsert taskId tenantId priority)] with
      | error e =>
        simp only [hc]
        exact hJ
      | ok db' =>
        simp only [hc]
        refine ⟨hJ, ?_⟩
        obtain ⟨r, hr⟩ := inserted_of_commit hc
        exact ⟨r, by simpa [apply_ok, World.exec, hc] using hr⟩
    | fail _ => exact hJ
    | cancel _ => exact hJ

variable (hrow : ∀ w, Inserted kw taskId w → J w) (cr : TaskCreator) (u : CreateInputs)
include hrow

/-- A creation that returns has inserted its row, whatever happens in between. -/
theorem along_createNew (hdb : cr.hasDb = true) (hp : kw.persistToDb.getD true = true) (hw : J w) :
    Along Command.apply J (fun r w' => r.taskId = taskId ∧ Inserted kw taskId w')
      (cr.createNew u tenantId taskId kw) w := by
  have hl : CreateAllowed (Command.leaves taskId) kw taskId tenantId := leaves_create taskId
  unfold createNew
  refine Along.bind (Q := fun _ _ => True) ?_ fun after w₁ hw₁ _ => ?_
  · unfold executeAfterMs
    split
    · split
      · exact (along_time hw).bind fun _ _ h _ => ⟨h, trivial⟩
      · exact ⟨hw, trivial⟩
    · exact ⟨hw, trivial⟩
  · refine (along_time hw₁).bind fun t w₂ hw₂ _ => ?_
    refine Along.bind (Q := fun _ => Inserted kw taskId) ?_ fun _ w₃ _ hw₃ => ?_
    · unfold store
      rw [if_pos ⟨hdb, hp⟩]
      refine Along.bind (Q := fun _ => Inserted kw taskId) ?_ fun _ _ h h' => ⟨h, h'⟩
      refine (along_time hw₂).bind fun _ w₄ hw₄ _ => ?_
      refine (along_mysqlWrite hinsert hw₄).bind fun _ w₅ _ hw₅ => ?_
      exact (along_inserted hrow (issues_syncRedis hl.toStoreAllowed _ _ _) hw₅).mono (fun _ h => h)
        fun _ _ h => h.2
    · exact (along_inserted hrow (issues_enqueueStored hl.toEnqueueAllowed cr u after) hw₃).mono
        (fun _ h => h) fun _ _ h => ⟨h.1.1, h.2⟩

end Along

section Along
variable {J : World → Prop} {kw : TaskKwargs} {w : World} (cr : TaskCreator) (u : CreateInputs)
  (tenantId : String) (key : Option String)

/-- Every state a creation visits satisfies `J`, if reads and the insert keep `J` and the inserted
row implies it; a call that reuses nothing returns with its row in place. -/
theorem along_createTask (hdb : cr.hasDb = true) (hp : kw.persistToDb.getD true = true)
    (hinsert : ∀ i w priority, J w →
      J (Command.apply (.commit [.insertTask (kw.taskInsert (newTaskId u key) tenantId priority)]) i w))
    (hrow : ∀ w, Inserted kw (newTaskId u key) w → J w) (hw : J w) :
    Along Command.apply J (fun r w' => r.idempotentReused = false →
        r.taskId = newTaskId u key ∧ Inserted kw (newTaskId u key) w')
      (cr.createTask u tenantId key kw) w := by
  refine along_exceptException ?_ fun e w' hw' => hw'
  split
  · exact hw
  · refine Along.bind (Q := fun _ _ => True) ?_ fun existing w₁ hw₁ _ => ?_
    · have hl : Issues J (· = .read) (fun _ => True) (cr.lookup tenantId key) :=
        issues_lookup (C := (· = .read)) rfl cr trivial fun _ _ _ _ _ _ _ _ => trivial
      refine (Along.of_issues (fun c i w hc h => ?_) hl hw).mono (fun _ h => h) fun _ _ _ => trivial
      rw [hc, apply_read]
      exact h
    · split
      · exact ⟨hw₁, fun hr => nomatch hr⟩
      · exact (along_createNew hinsert hrow cr u hdb hp hw₁).mono (fun _ h => h) fun _ _ h _ => h

end Along

end TaskCreator

end AsyncScheduler
