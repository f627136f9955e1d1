import AsyncScheduler.Platform.CreatorFootprint
import AsyncScheduler.Platform.RebuildRun

/-!
# A creation that stops half-way

A creation may stop at any awaited effect, and any effect may fail.
-/

namespace AsyncScheduler

def Restored (x c : String) (w : World) : Prop :=
  w.redis.existsKey (taskKey x) = true ∧ (x ∈ w.pending c ∨ x ∈ w.running c)

theorem rebuild_restores {rc : TaskReconciler} {x c : String} {w : World} (hdb : rc.hasDb = true) {row : TaskRecord}
    (hr : w.db.tasks.find x = some row) (hid : x ≠ "") (ht : row.taskType = c) (hc : c ≠ "")
    (hs : row.status = .queued) :
    ∃ w', rc.rebuildRedisFromMysql.runWith Command.apply .ok w = (.ok (), w') ∧ Restored x c w' := by
  obtain ⟨hm, rfl⟩ := (Table.find_eq_some_iff _ _ _).mp hr
  subst ht
  refine ⟨_, rc.runWith_rebuild w, ?_⟩
  rw [if_pos hdb]
  exact ⟨Blob.existsKey_of_truthy (TaskReconciler.truthy_foldl_rebuilt hm hid),
    TaskReconciler.waits_or_runs_foldl_rebuilt hm hid ⟨hc, .inl hs⟩⟩

def Fresh (x c : String) (w : World) : Prop :=
  w.db.tasks.find x = none ∧ w.redis.existsKey (taskKey x) = false ∧ x ∉ w.pending c

open TaskCreator

theorem newTaskId_ne_empty (u : CreateInputs) (key : Option String) : newTaskId u key ≠ "" := by
  unfold newTaskId
  intro h
  have hl := congrArg String.length h
  split at hl
  · simp [deterministicId] at hl
  · simp [u.taskUuid.length_eq] at hl

theorem fresh_insert {x tenantId : String} {kw : TaskKwargs} {w : World} (i : Fault) (priority : TaskPriority)
    (h : Fresh x kw.capabilityName w ∨ Inserted kw x w) :
    let w' := Command.apply (.commit [.insertTask (kw.taskInsert x tenantId priority)]) i w
    Fresh x kw.capabilityName w' ∨ Inserted kw x w' := by
  intro w'
  rcases h with hf | hi
  · unfold w' Command.apply
    split
    · cases hc : w.db.commit w.redis.clock [.insertTask (kw.taskInsert x tenantId priority)] with
      | error e =>
        simp only [World.exec, hc]
        exact .inl hf
      | ok db' =>
        obtain ⟨r, hr⟩ := inserted_of_commit hc
        exact .inr ⟨r, by simpa [World.exec, hc] using hr⟩
    · exact .inl hf
  · exact .inr (rowIs_apply i ((leaves_create x).insert priority) hi)

/-- At every moment of a creation its id is unused, or its row is there. -/
theorem fresh_or_inserted {cr : TaskCreator} {u : CreateInputs} (tenantId : String)
    {key : Option String} {kw : TaskKwargs} {w : World} (hdb : cr.hasDb = true)
    (hp : kw.persistToDb.getD true = true)
    (hf : Fresh (newTaskId u key) kw.capabilityName w) (faults : List Fault) :
    let w' := ((cr.createTask u tenantId key kw).feed Command.apply faults w).2
    Fresh (newTaskId u key) kw.capabilityName w' ∨
      (Inserted kw (newTaskId u key) w' ∧ kw.capabilityName ≠ "") := by
  by_cases hc : kw.capabilityName = ""
  · -- the call raises before its first effect
    have hr : cr.createTask u tenantId key kw =
        .raise (.valueError "task_type or capability must be provided in template") := by
      unfold createTask
      rw [if_pos hc]
      rfl
    rw [hr]
    cases faults <;> exact .inl hf
  · have ha := along_createTask
      (J := fun w => Fresh (newTaskId u key) kw.capabilityName w ∨ Inserted kw (newTaskId u key) w)
      cr u tenantId key hdb hp (fun i _ priority h => fresh_insert i priority h) (fun _ h => .inr h)
      (.inl hf)
    exact (ha.feed faults).imp_right fun h => ⟨h, hc⟩

/-- Wherever a creation of a fresh task stops and whatever failed on the way: what points to the
task implies its queued row, and one undisturbed rebuild of any later state with that row caches
the task and puts it into a queue. -/
theorem creation_crash_consistent (cr : TaskCreator) (u : CreateInputs) (tenantId : String)
    (key : Option String) (kw : TaskKwargs) (w : World) (hdb : cr.hasDb = true)
    (hpersist : kw.persistToDb.getD true = true)
    (hfresh : Fresh (newTaskId u key) kw.capabilityName w) (faults : List Fault) :
    let x := newTaskId u key
    let w' := ((cr.createTask u tenantId key kw).feed Command.apply faults w).2
    ((w'.redis.existsKey (taskKey x) = true ∨ x ∈ w'.pending kw.capabilityName) →
      ∃ row, w'.db.tasks.find x = some row ∧ row.status = .queued) ∧
    ∀ row, w'.db.tasks.find x = some row →
      ∀ (rc : TaskReconciler) (later : World), rc.hasDb = true → later.db.tasks.find x = some row →
        ∃ w'', rc.rebuildRedisFromMysql.runWith Command.apply .ok later = (.ok (), w'') ∧
          Restored x kw.capabilityName w'' := by
  intro x w'
  rcases fresh_or_inserted tenantId hdb hpersist hfresh faults with
    ⟨hn, hu, hun⟩ | ⟨⟨row, hr, hs, ht⟩, hca⟩
  · refine ⟨?_, fun row hr => ?_⟩
    · rintro (hc | hq)
      · rw [hu] at hc
        cases hc
      · exact absurd hq hun
    · rw [hn] at hr
      cases hr
  · refine ⟨fun _ => ⟨row, hr, hs⟩, ?_⟩
    intro row' hr' rc later hrc hl
    obtain rfl : row = row' := Option.some.inj (hr.symm.trans hr')
    exact rebuild_restores hrc hl (newTaskId_ne_empty u key) ht hca hs

theorem creation_crash_consistent_oneTask :
    let stopped := ((plain.createTask .ones "acme" none { taskType := some "gpu" }).feed
      Command.apply (List.replicate 4 .ok) World.empty).2
    (stopped.db.tasks.rows.map fun r => (r.taskId, r.status)) = [(Uuid.one.text, .queued)] ∧
    stopped.redis.existsKey (taskKey Uuid.one.text) = false ∧
    ∀ row, stopped.db.tasks.find Uuid.one.text = some row →
      ∃ w'', (TaskReconciler.rebuildRedisFromMysql { instanceId := "r" }).runWith Command.apply .ok stopped =
        (.ok (), w'') ∧ Restored Uuid.one.text "gpu" w'' := by
  refine ⟨by decide +kernel, by decide +kernel, fun row hr => ?_⟩
  exact (creation_crash_consistent plain .ones "acme" none { taskType := some "gpu" } World.empty rfl rfl
    ⟨rfl, rfl, SortedSet.mem_empty _⟩ (List.replicate 4 .ok)).2 row hr { instanceId := "r" } _ rfl hr

end AsyncScheduler
