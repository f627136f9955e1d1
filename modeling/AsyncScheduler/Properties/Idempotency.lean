import AsyncScheduler.Platform.CreatorRun

/-!
# Idempotent creation

Calls with one idempotency key create one task between them only when there is a single call: the
row is stored without the key, so no later call finds it, and the id that a later call derives from
the key is taken.
-/

namespace AsyncScheduler
open TaskCreator

/-- A call of `create_task` with a key: when it is made, the identifiers it draws and its
other arguments. -/
structure KeyedCall where
  instant : ℚ
  inputs : CreateInputs
  kwargs : TaskKwargs

def keyedRows (tenantId key : String) (w : World) : List TaskRecord :=
  w.db.tasks.rows.filter fun r => r.tenantId = tenantId ∧ r.idempotencyKey = some key

section
variable (cr : TaskCreator) (tenantId key : String)

namespace KeyedCall

def program (call : KeyedCall) : Py CreateResult :=
  cr.createTask call.inputs tenantId (some key) call.kwargs

def start (call : KeyedCall) (w : World) : World := w.exec (.advance call.instant)

def run (call : KeyedCall) (w : World) : Except PyErr CreateResult × World :=
  (call.program cr tenantId key).runWith Command.apply .ok (call.start w)

def runAll : List KeyedCall → World → List (Except PyErr CreateResult) × World
  | [], w => ([], w)
  | call :: calls, w =>
    let (outcome, w') := call.run cr tenantId key w
    let (outcomes, w'') := runAll calls w'
    (outcome :: outcomes, w'')

def enqueuesAll : List KeyedCall → World → Nat
  | [], _ => 0
  | call :: calls, w =>
    enqueues (call.program cr tenantId key) (call.start w) +
      enqueuesAll calls (call.run cr tenantId key w).2

end KeyedCall

/-- One row, one enqueue, one id, no error, and reuse from the second call on. -/
structure IdempotentCreation (calls : List KeyedCall) (w : World) : Prop where
  rows : (KeyedCall.runAll cr tenantId key calls w).2.db.tasks.rows.length = w.db.tasks.rows.length + 1
  enqueues : KeyedCall.enqueuesAll cr tenantId key calls w = 1
  same : ∃ id, ∀ outcome ∈ (KeyedCall.runAll cr tenantId key calls w).1,
    ∃ result, outcome = .ok result ∧ result.taskId = id
  reused : ∀ outcome ∈ (KeyedCall.runAll cr tenantId key calls w).1.tail,
    ∀ result, outcome = .ok result → result.idempotentReused = true

/-- The call returns a new task: it names a capability and asks for a row, no row has its key, and
the creation can be stored and enqueued. -/
structure KeyedCall.Creates (call : KeyedCall) (w : World) : Prop where
  capability : call.kwargs.capabilityName ≠ ""
  persists : call.kwargs.persistToDb.getD true = true
  fresh : keyedRows tenantId key w = []
  acceptable : Acceptable cr call.kwargs (TaskCreator.deterministicId key) tenantId (call.start w)

end

section
variable {cr : TaskCreator} {tenantId key : String} {kw : TaskKwargs} {u : CreateInputs} {w w' : World}
  {result : CreateResult}

theorem runWith_lookup (hdb : cr.hasDb = true) (hk : key ≠ "") (w : World) :
    (cr.lookup tenantId (some key)).runWith Command.apply .ok w =
      (match keyedRows tenantId key w with
        | [] => .ok none
        | [row] => .ok (some row)
        | _ => .error .multipleResultsFound, w) := by
  simp only [TaskCreator.lookup, given_some hk, hdb, if_true, TaskCreator.findExisting, runWith_session, runWith_await]
  rfl

/-- A keyed call finds one row of its key or creates it. -/
theorem runWith_createTask_eq_ok (hdb : cr.hasDb = true) (hk : key ≠ "") :
    (cr.createTask u tenantId (some key) kw).runWith Command.apply .ok w = (.ok result, w') ↔
      kw.capabilityName ≠ "" ∧
        ((∃ row, keyedRows tenantId key w = [row] ∧ result = ⟨row.taskId, true, -1, 0, true⟩ ∧ w' = w) ∨
          (keyedRows tenantId key w = [] ∧
            (cr.createNew u tenantId (TaskCreator.deterministicId key) kw).runWith Command.apply .ok w =
              (.ok result, w'))) := by
  have hid : TaskCreator.newTaskId u (some key) = TaskCreator.deterministicId key := by
    simp only [TaskCreator.newTaskId, given_some hk]
  unfold TaskCreator.createTask
  rw [runWith_logErrors_eq_ok, hid]
  by_cases hc : kw.capabilityName = ""
  · simp [hc]
  · rw [if_neg hc, Prog.bind_eq, Prog.runWith_bind, runWith_lookup hdb hk]
    match keyedRows tenantId key w with
    | [] => simp [hc]
    | [row] => simp [hc, eq_comm]
    | _ :: _ :: _ => simp [hc]

theorem silent_lookup {cr : TaskCreator} {tenantId : String} {key : Option String} :
    Issues (fun _ => True) Command.Silent (fun _ => True) (cr.lookup tenantId key) :=
  issues_lookup silent_ambient.read cr trivial fun _ _ _ _ _ _ _ _ => trivial

theorem enqueues_createTask (hdb : cr.hasDb = true) (hk : key ≠ "") (hc : kw.capabilityName ≠ "")
    (hf : keyedRows tenantId key w = [])
    (h : (cr.createTask u tenantId (some key) kw).runWith Command.apply .ok w = (.ok result, w')) :
    enqueues (cr.createTask u tenantId (some key) kw) w = 1 := by
  have hl : (cr.lookup tenantId (some key)).runWith Command.apply .ok w = (.ok none, w) := by
    rw [runWith_lookup hdb hk, hf]
  unfold TaskCreator.createTask at h ⊢
  rw [runWith_logErrors_eq_ok] at h
  rw [enqueues_logErrors h]
  rw [if_neg hc, Prog.bind_eq] at h ⊢
  rw [Prog.runWith_bind_ok hl] at h
  rw [enqueues_bind hl, enqueues_eq_zero silent_lookup, Nat.zero_add]
  exact enqueues_createNew h

theorem KeyedCall.tasks_start (call : KeyedCall) (w : World) : (call.start w).db.tasks = w.db.tasks := by
  have ha : (Command.advance call.instant).keepsTasks := keepsTasks_of_ne_commit fun _ h => nomatch h
  exact ha w

theorem keyedRows_start (call : KeyedCall) (w : World) :
    keyedRows tenantId key (call.start w) = keyedRows tenantId key w := by
  unfold keyedRows
  rw [call.tasks_start]

theorem keyedRows_run (hdb : cr.hasDb = true) (hk : key ≠ "") {call : KeyedCall}
    (h : call.run cr tenantId key w = (.ok result, w')) : keyedRows tenantId key w' = keyedRows tenantId key w := by
  rw [← keyedRows_start call w]
  obtain ⟨_, ⟨_, _, _, rfl⟩ | ⟨_, hn⟩⟩ := (runWith_createTask_eq_ok hdb hk).mp h
  · rfl
  · cases hp : call.kwargs.persistToDb.getD true with
    | true =>
      obtain ⟨row, hr, hro⟩ := rows_createNew hdb hp hn
      unfold keyedRows
      rw [hr, List.filter_append]
      simp [hro]
    | false =>
      unfold keyedRows
      rw [tasks_createNew_of_not_persist hp hn]

theorem reused_createNew {taskId : String}
    (h : (cr.createNew u tenantId taskId kw).runWith Command.apply .ok w = (.ok result, w')) :
    result.idempotentReused = false := by
  have ha : CreateAllowed (fun _ => True) kw taskId tenantId :=
    { read := trivial, breaker := fun _ => trivial, register := fun _ => trivial
      insert := fun _ => trivial, cache := fun _ => trivial, transaction := fun _ _ _ => trivial
      enqueue := fun _ _ _ => trivial, track := fun _ _ => trivial }
  have hy : (cr.createNew u tenantId taskId kw).Yields result :=
    Prog.yields_of_runWith (congrArg Prod.fst h)
  exact (Issues.yields hy (issues_createNew ha cr u)).2

theorem creates_iff (hdb : cr.hasDb = true) (hk : key ≠ "") (call : KeyedCall) (w : World) :
    (∃ result w', call.run cr tenantId key w = (.ok result, w') ∧
      w'.db.tasks.rows.length = w.db.tasks.rows.length + 1) ↔ call.Creates cr tenantId key w := by
  constructor
  · rintro ⟨result, w', hru, hr⟩
    obtain ⟨hc, ⟨_, _, _, rfl⟩ | ⟨hf, hn⟩⟩ := (runWith_createTask_eq_ok hdb hk).mp hru
    · rw [call.tasks_start] at hr
      omega
    · cases hp : call.kwargs.persistToDb.getD true with
      | true =>
        exact ⟨hc, hp, keyedRows_start call w ▸ hf,
          (createNew_returns_iff hdb hp call.inputs _).mp ⟨result, w', hn⟩⟩
      | false =>
        rw [tasks_createNew_of_not_persist hp hn, call.tasks_start] at hr
        omega
  · intro h
    obtain ⟨result, w', hn⟩ :=
      (createNew_returns_iff hdb h.persists call.inputs _).mpr h.acceptable
    refine ⟨result, w', (runWith_createTask_eq_ok hdb hk).mpr ⟨h.capability, .inr ⟨?_, hn⟩⟩, ?_⟩
    · rw [keyedRows_start, h.fresh]
    · obtain ⟨row, hr, _⟩ := rows_createNew hdb h.persists hn
      rw [hr, call.tasks_start, List.length_append, List.length_singleton]

theorem KeyedCall.run_eq {call : KeyedCall} (h : (call.run cr tenantId key w).1 = .ok result) :
    call.run cr tenantId key w = (.ok result, (call.run cr tenantId key w).2) := Prod.ext h rfl

theorem KeyedCall.runAll_cons (call : KeyedCall) (calls : List KeyedCall) (w : World) :
    KeyedCall.runAll cr tenantId key (call :: calls) w =
      ((call.run cr tenantId key w).1 :: (KeyedCall.runAll cr tenantId key calls (call.run cr tenantId key w).2).1,
        (KeyedCall.runAll cr tenantId key calls (call.run cr tenantId key w).2).2) := rfl

theorem rows_runAll (hdb : cr.hasDb = true) (hk : key ≠ "") {row : TaskRecord} (calls : List KeyedCall)
    (w : World) (hro : keyedRows tenantId key w = [row])
    (hok : ∀ outcome ∈ (KeyedCall.runAll cr tenantId key calls w).1, ∃ result, outcome = .ok result) :
    (KeyedCall.runAll cr tenantId key calls w).2.db.tasks = w.db.tasks := by
  induction calls generalizing w with
  | nil => rfl
  | cons call calls ih =>
    rw [KeyedCall.runAll_cons] at hok ⊢
    obtain ⟨⟨result, hre⟩, hr⟩ := List.forall_mem_cons.mp hok
    obtain ⟨_, ⟨_, _, _, hw'⟩ | ⟨hf, _⟩⟩ :=
      (runWith_createTask_eq_ok hdb hk).mp (KeyedCall.run_eq hre)
    · have hu : (call.run cr tenantId key w).2 = call.start w := hw'
      rw [hu] at hr ⊢
      rw [ih _ (by rw [keyedRows_start, hro]) hr, call.tasks_start]
    · rw [keyedRows_start, hro] at hf
      cases hf

theorem not_idempotentCreation_of_two (hdb : cr.hasDb = true) (hke : key ≠ "")
    (first second : KeyedCall) (calls : List KeyedCall) (w : World) :
    ¬ IdempotentCreation cr tenantId key (first :: second :: calls) w := by
  rintro ⟨hro, _, ⟨_, hs⟩, hre⟩
  have hok : ∀ outcome ∈ (KeyedCall.runAll cr tenantId key (first :: second :: calls) w).1,
      ∃ result, outcome = .ok result := fun outcome ho => (hs outcome ho).imp fun _ h => h.1
  obtain ⟨⟨r₁, h₁⟩, hr⟩ := List.forall_mem_cons.mp hok
  obtain ⟨⟨r₂, h₂⟩, _⟩ := List.forall_mem_cons.mp hr
  have hk := keyedRows_run hdb hke (KeyedCall.run_eq h₁)
  obtain ⟨_, ⟨row, hrow, _⟩ | ⟨_, hn⟩⟩ := (runWith_createTask_eq_ok hdb hke).mp
    (KeyedCall.run_eq h₂)
  · have hst : keyedRows tenantId key w = [row] :=
      hk.symm.trans ((keyedRows_start _ _).symm.trans hrow)
    rw [rows_runAll hdb hke _ w hst hok] at hro
    omega
  · have hr₂ := hre _ List.mem_cons_self r₂ h₂
    rw [reused_createNew hn] at hr₂
    cases hr₂

end

def gpuCall : KeyedCall := ⟨0, .ones, { taskType := some "gpu" }⟩

/-- What a tenant sees of a creation: whether it succeeded, and the row, the cached record and the
queue entry under the id it creates under. -/
structure CreationView where
  succeeded : Bool
  row : Option TaskRecord
  record : Option Blob
  entry : Option ℚ
  deriving DecidableEq, Repr

section
variable (cr : TaskCreator) (tenant₁ tenant₂ key : String) (u₁ u₂ : CreateInputs) (kw₁ kw₂ : TaskKwargs)

def creationView (u : CreateInputs) (tenantId : String) (key : Option String) (kw : TaskKwargs) (w : World) :
    CreationView :=
  let (outcome, w') := (cr.createTask u tenantId key kw).runWith Command.apply .ok w
  let id := TaskCreator.newTaskId u key
  ⟨outcome.isOk, w'.db.tasks.find id, w'.redis.get (taskKey id),
    w'.redis.zscore (QueueKeys.pending kw.capabilityName) id⟩

/-- The second tenant creates under an id of its own, and sees the same whether the first tenant's
call before carried the key or none. -/
structure PrivateKey (w : World) : Prop where
  ids : TaskCreator.newTaskId u₁ (some key) ≠ TaskCreator.newTaskId u₂ (some key)
  independent :
    creationView cr u₂ tenant₂ (some key) kw₂
        ((cr.createTask u₁ tenant₁ (some key) kw₁).runWith Command.apply .ok w).2 =
      creationView cr u₂ tenant₂ (some key) kw₂
        ((cr.createTask u₁ tenant₁ none kw₁).runWith Command.apply .ok w).2

theorem newTaskId_of_key {key : String} (hk : key ≠ "") (u : CreateInputs) :
    TaskCreator.newTaskId u (some key) = TaskCreator.deterministicId key := by
  simp only [TaskCreator.newTaskId, given_some hk]

theorem createTask_empty_key (u : CreateInputs) (tenantId : String) (kw : TaskKwargs) :
    cr.createTask u tenantId (some "") kw = cr.createTask u tenantId none kw := rfl

theorem privateKey_iff (w : World) (hu : u₁.taskUuid.text ≠ u₂.taskUuid.text) :
    PrivateKey cr tenant₁ tenant₂ key u₁ u₂ kw₁ kw₂ w ↔ key = "" := by
  constructor
  · intro h
    by_contra hk
    exact h.ids ((newTaskId_of_key hk u₁).trans (newTaskId_of_key hk u₂).symm)
  · rintro rfl
    exact ⟨hu, by rw [createTask_empty_key cr u₁]⟩

end

theorem reused_of_taken_key {cr : TaskCreator} {tenant₁ tenant₂ key : String} {u₁ u₂ : CreateInputs}
    {kw₁ kw₂ : TaskKwargs} {w w₁ w₂ : World} {r₁ r₂ : CreateResult} (hdb : cr.hasDb = true) (hk : key ≠ "")
    (hp₁ : kw₁.persistToDb.getD true = true) (hp₂ : kw₂.persistToDb.getD true = true)
    (h₁ : (cr.createTask u₁ tenant₁ (some key) kw₁).runWith Command.apply .ok w = (.ok r₁, w₁))
    (hn : r₁.idempotentReused = false)
    (h₂ : (cr.createTask u₂ tenant₂ (some key) kw₂).runWith Command.apply .ok w₁ = (.ok r₂, w₂)) :
    r₂.idempotentReused = true := by
  have hal := TaskCreator.along_createTask (J := fun _ => True) (w := w) cr u₁ tenant₁ (some key) hdb
    hp₁ (fun _ _ _ _ => trivial) (fun _ _ => trivial) trivial
  obtain ⟨_, row, hr, _⟩ := hal.runWith h₁ hn
  obtain ⟨_, ⟨_, _, rfl, _⟩ | ⟨_, hc⟩⟩ := (runWith_createTask_eq_ok hdb hk).mp h₂
  · rfl
  · have ha := (TaskCreator.createNew_returns_iff hdb hp₂ u₂ w₁).mp ⟨r₂, w₂, hc⟩
    have hu := ha.unused
    rw [← newTaskId_of_key hk u₁, hr] at hu
    cases hu

/-- A key is private to a tenant exactly when it is empty, that is when there is none. With any other
key, once one tenant has created a task under it, no other tenant can. -/
theorem idempotency_key_private_iff (cr : TaskCreator) (tenant₁ tenant₂ key : String) (u₁ u₂ : CreateInputs)
    (kw₁ kw₂ : TaskKwargs) (w : World) (huuid : u₁.taskUuid.text ≠ u₂.taskUuid.text) :
    (PrivateKey cr tenant₁ tenant₂ key u₁ u₂ kw₁ kw₂ w ↔ key = "") ∧
    (cr.hasDb = true → key ≠ "" → kw₁.persistToDb.getD true = true → kw₂.persistToDb.getD true = true →
      ∀ r₁ w₁, (cr.createTask u₁ tenant₁ (some key) kw₁).runWith Command.apply .ok w = (.ok r₁, w₁) →
        r₁.idempotentReused = false → ∀ r₂ w₂,
          (cr.createTask u₂ tenant₂ (some key) kw₂).runWith Command.apply .ok w₁ = (.ok r₂, w₂) →
            r₂.idempotentReused = true) :=
  ⟨privateKey_iff cr tenant₁ tenant₂ key u₁ u₂ kw₁ kw₂ w huuid,
    fun hdb hk hp₁ hp₂ _ _ h₁ hn _ _ h₂ =>
      reused_of_taken_key hdb hk hp₁ hp₂ h₁ hn h₂⟩

def World.afterAcme (key : Option String) : World :=
  ((TaskCreator.plain.createTask .ones "acme" key { taskType := some "gpu" }).runWith Command.apply .ok
    World.empty).2

theorem beta_blocked_by_acme :
    ((TaskCreator.plain.createTask .twos "beta" (some "job:1") { taskType := some "gpu" }).runWith
      Command.apply .ok (World.afterAcme none)).1 =
        .ok ⟨TaskCreator.deterministicId "job:1", true, 2, 2, false⟩ ∧
    ((TaskCreator.plain.createTask .twos "beta" (some "job:1") { taskType := some "gpu" }).runWith
      Command.apply .ok (World.afterAcme (some "job:1"))).1 =
        .error (.systemError ("Duplicate entry '" ++ TaskCreator.deterministicId "job:1" ++
          "' for key 'tasks.PRIMARY'")) ∧
    ((World.afterAcme (some "job:1")).db.tasks.find (TaskCreator.deterministicId "job:1")).map
      TaskRecord.tenantId = some "acme" := by
  decide +kernel

theorem idempotency_key_private_iff_acme_beta :
    ¬ PrivateKey .plain "acme" "beta" "job:1" .ones .twos { taskType := some "gpu" } { taskType := some "gpu" }
      World.empty := by
  rw [(idempotency_key_private_iff .plain "acme" "beta" "job:1" .ones .twos { taskType := some "gpu" }
    { taskType := some "gpu" } World.empty (by decide)).1]
  decide

end AsyncScheduler
