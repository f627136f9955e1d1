import AsyncScheduler.Platform.CallbackRun
import AsyncScheduler.Platform.ReportRun
import AsyncScheduler.Services.CallbackDispatcher

/-!
# Single delivery

One report with a callback, among passes over the retry set and passes of the dispatcher, with no
failures.
-/

namespace AsyncScheduler
open QueueKeys List TaskCompletionNode

inductive CallbackRequest where
  | retry (batchSize : Int)
  | dispatch (order : List Nat)

def callbackSystem (node : TaskCompletionNode) (sv : CallbackDispatchService) :
    System Command Fault World PyErr CallbackRequest ℚ where
  apply := Command.apply
  program
    | .retry batchSize => (node.processDueCallbacks batchSize).void
    | .dispatch order => (sv.processOnce order).void
  ambient := .advance

def reporting (node : TaskCompletionNode) (r : Completion) (schedule : List Nat) (w : World) :
    Sys Command Fault World PyErr := ⟨w, [(node.handleCompletion schedule r).void], []⟩

def Rowless (x : String) (w : World) : Prop := ∀ row ∈ w.db.callbackOutbox, row.taskId ≠ x

instance (x : String) (w : World) : Decidable (Rowless x w) := List.decidableBAll _ _

/-- Nothing is left of earlier callbacks of the task. -/
structure CallbackFree (codec : EventCodec) (x : String) (w : World) : Prop where
  unqueued : ∀ member, ¬ w.Waits codec x member
  keeps : w.KeepsRetries
  rowless : Rowless x w

def CallbackDispatchService.active (sv : CallbackDispatchService) : Bool := sv.hasDb && sv.started

/-- Every program has ended, and no pass would find anything of the task. -/
structure Quiescent (node : TaskCompletionNode) (sv : CallbackDispatchService) (x : String)
    (z : Sys Command Fault World PyErr) : Prop where
  ended : ∀ p ∈ z.procs, (∃ a, p = .ret a) ∨ ∃ e, p = .raise e
  unqueued : ∀ member, ¬ z.world.Waits node.codec x member
  drained : sv.active = true → ∀ row ∈ z.world.db.callbackOutbox, row.taskId = x → row.deliveryStatus ≠ .pending

/-- In every run without failures the callback is posted at most once, and exactly once when nothing is left to do. -/
def DeliversOnce (node : TaskCompletionNode) (sv : CallbackDispatchService) (r : Completion) (db : Mysql) : Prop :=
  ∀ w schedule ms, w.db = db → CallbackFree node.codec r.taskId w →
    let z := (callbackSystem node sv).run (reporting node r schedule w) ms
    (∀ t ∈ z.trace, t.input = .ok) →
    z.trace.countP (Step.notifies r.taskId) ≤ 1 ∧
      (Quiescent node sv r.taskId z → z.trace.countP (Step.notifies r.taskId) = 1)

def Completion.Persists (r : Completion) (row : Option TaskRecord) : Prop :=
  ∃ old status, row = some old ∧ TaskCompletionNode.nextStatus old.status r.status = .ok r.status ∧
    TaskStatus.ofText r.status = some status ∧ r.Fits

section
variable (codec : EventCodec) (sv : CallbackDispatchService) (x : String)

/-- No row of the task is made, and its record stays, as far as anybody would look. -/
def Undisturbed (c : Command) (w : World) : Prop :=
  sv.active = true → Rowless x (w.exec c) ∧ (w.exec c).db.tasks.find x = w.db.tasks.find x

instance (c : Command) (w : World) : Decidable (Undisturbed sv x c w) := inferInstanceAs (Decidable (_ → _ ∧ _))

def carries : Bool → Step → Option Bool
  | false, t =>
    match t.cmd with
    | .read | .keys _ | .callbacks (.deadLetter ..) | .callbacks (.keepDeadLetters _) => some false
    | .post request => if request.idempotencyKey = x then none else some false
    | .callbackRetry member _ ops => if ops = [] ∧ codec.ofTask x member = none then some false else none
    | .callbacks (.claim member) =>
      some ((t.pre.redis.zscore callbackRetry member).isSome && (codec.ofTask x member).isSome)
    | .commit _ => if Undisturbed sv x t.cmd t.pre then some false else none
    | _ => none
  | true, t =>
    match t.cmd with
    | .read => some true
    | .post request => if request.idempotencyKey = x then some false else none
    | .callbackRetry member _ ops => if ops = [] ∧ (codec.ofTask x member).isSome then some false else none
    | .commit _ => if Undisturbed sv x t.cmd t.pre then some true else none
    | _ => none

/-- A step that does not move the callback. -/
structure Step.Aside (t : Step) : Prop where
  notifies : Step.notifies x t = false
  command : t.cmd.sparesRetries = true ∨
    (∃ member, t.cmd = .callbacks (.claim member) ∧
      (member ∈ t.pre.redis.zsets callbackRetry → codec.ofTask x member = none)) ∨
    ∃ member score, t.cmd = .callbackRetry member score [] ∧ codec.ofTask x member = none
  undisturbed : Undisturbed sv x t.cmd t.pre ∨ ∀ writes, t.cmd ≠ .commit writes

inductive Carried (t : Step) : Bool → Bool → Prop
  | aside {l : Bool} (h : Step.Aside codec sv x t) : Carried t l l
  | take {member : String} (hcmd : t.cmd = .callbacks (.claim member))
    (hin : t.pre.Waits codec x member) : Carried t false true
  | post {request : CallbackPost} (hcmd : t.cmd = .post request) (hkey : request.idempotencyKey = x) : Carried t true false
  | enqueue {member : String} {score : ℚ} (hcmd : t.cmd = .callbackRetry member score [])
    (hof : (codec.ofTask x member).isSome = true) : Carried t true false

end

variable {codec : EventCodec} {sv : CallbackDispatchService} {x : String} {t : Step} {l l' : Bool}

theorem carried_of_false (h : carries codec sv x false t = some l') : Carried codec sv x t false l' := by
  obtain ⟨c, i, w⟩ := t
  cases c with
  | read =>
    cases h
    exact .aside ⟨rfl, .inl rfl, .inr (by simp)⟩
  | keys ops =>
    cases h
    exact .aside ⟨rfl, .inl rfl, .inr (by simp)⟩
  | post request =>
    simp only [carries] at h
    split at h
    · cases h
    · rename_i hk
      cases h
      exact .aside ⟨by simp [Step.notifies, hk], .inl rfl, .inr (by simp)⟩
  | callbackRetry member score ops =>
    simp only [carries] at h
    split at h
    · rename_i ho
      obtain ⟨rfl, hn⟩ := ho
      cases h
      exact .aside ⟨rfl, .inr (.inr ⟨member, score, rfl, hn⟩), .inr (by simp)⟩
    · cases h
  | callbacks op =>
    cases op with
    | claim member =>
      simp only [carries] at h
      cases ht : (w.redis.zscore callbackRetry member).isSome && (codec.ofTask x member).isSome with
      | true =>
        rw [ht] at h
        cases h
        obtain ⟨hin, hof⟩ := Bool.and_eq_true_iff.mp ht
        exact .take rfl ⟨zscore_isSome_iff.mp hin, hof⟩
      | false =>
        rw [ht] at h
        cases h
        refine .aside ⟨rfl, .inr (.inl ⟨member, rfl, fun hin => ?_⟩), .inr (by simp)⟩
        rw [zscore_isSome_iff.mpr hin, Bool.true_and] at ht
        simpa using ht
    | deadLetter member score =>
      cases h
      exact .aside ⟨rfl, .inl rfl, .inr (by simp)⟩
    | keepDeadLetters seconds =>
      cases h
      exact .aside ⟨rfl, .inl rfl, .inr (by simp)⟩
  | commit writes =>
    simp only [carries] at h
    split at h
    · rename_i hu
      cases h
      exact .aside ⟨rfl, .inl rfl, .inl hu⟩
    · cases h
  | queue op | breaker op | memory op | mark m | advance now => cases h

theorem carried_of_carries (h : carries codec sv x l t = some l') : Carried codec sv x t l l' := by
  cases l with
  | false => exact carried_of_false h
  | true =>
    obtain ⟨c, i, w⟩ := t
    simp only [carries] at h
    split at h
    · cases h
      exact .aside ⟨rfl, .inl rfl, .inr (by simp)⟩
    · split at h
      · cases h
        exact .post rfl ‹_›
      · cases h
    · split at h
      · rename_i ho
        obtain ⟨rfl, hof⟩ := ho
        cases h
        exact .enqueue rfl hof
      · cases h
    · split at h
      · cases h
        exact .aside ⟨rfl, .inl rfl, .inl ‹_›⟩
      · cases h
    · cases h

inductive Whereabouts where
  | queued (member : String)
  | held (j : Nat)
  | posted

namespace Whereabouts

def carrier : Whereabouts → Nat → Bool
  | .held j, k => k = j
  | _, _ => false

def posts : Whereabouts → Nat
  | .posted => 1
  | _ => 0

theorem eq_held {place : Whereabouts} {j : Nat} (h : place.carrier j = true) : place = .held j := by
  cases place with
  | held k =>
    have hjk : j = k := by simpa [carrier] using h
    rw [hjk]
  | queued member => cases h
  | posted => cases h

end Whereabouts

/-- What a state without failures has in common with the first one, as far as the dispatcher looks. -/
def Unchanged (sv : CallbackDispatchService) (x : String) (row : Option TaskRecord) (w : World) : Prop :=
  sv.active = true → Rowless x w ∧ w.db.tasks.find x = row

structure Locates (codec : EventCodec) (sv : CallbackDispatchService) (x : String) (row : Option TaskRecord)
    (place : Whereabouts) (st : Nat → Bool) (tr : List Step) (w : World) : Prop where
  carrier : st = place.carrier
  waits : ∀ member, w.Waits codec x member ↔ place = .queued member
  keeps : w.KeepsRetries
  posts : tr.countP (Step.notifies x) = place.posts
  unchanged : Unchanged sv x row w

variable {row : Option TaskRecord} {place : Whereabouts} {st : Nat → Bool} {tr : List Step} {j : Nat}
  {w : World} {member : String}

theorem exec_db_of_not_commit {c : Command} (h : ∀ writes, c ≠ .commit writes) : (w.exec c).db = w.db := by
  rcases db_exec w c with hs | ⟨writes, db', hc, -⟩
  · exact hs
  · exact absurd hc (h writes)

theorem Unchanged.of_db {w w' : World} (h : Unchanged sv x row w) (hdb : w'.db = w.db) : Unchanged sv x row w' := by
  unfold Unchanged Rowless at h ⊢
  rw [hdb]
  exact h

theorem Unchanged.aside (h : Unchanged sv x row t.pre) (has : Step.Aside codec sv x t) :
    Unchanged sv x row (t.pre.exec t.cmd) := by
  rcases has.undisturbed with hu | ho
  · intro ha
    obtain ⟨hr, hf⟩ := hu ha
    exact ⟨hr, hf.trans (h ha).2⟩
  · exact h.of_db (exec_db_of_not_commit ho)

theorem Locates.aside (h : Locates codec sv x row place st tr t.pre) (ha : Step.Aside codec sv x t) :
    Locates codec sv x row place st (t :: tr) (t.pre.exec t.cmd) := by
  refine ⟨h.carrier, fun member => ?_, ?_, ?_, h.unchanged.aside ha⟩
  · rw [← h.waits member]
    rcases ha.command with hs | ⟨member', hc, ho⟩ | ⟨member', score, hc, ho⟩
    · exact waits_of_spares hs h.keeps member
    · rw [hc, waits_claim]
      refine ⟨And.left, fun hw => ⟨hw, ?_⟩⟩
      rintro rfl
      simpa [ho hw.1] using hw.2
    · rw [hc, waits_retry, ho]
      simp
  · rcases ha.command with hs | ⟨member', hc, -⟩ | ⟨member', score, hc, -⟩
    · exact (retrySet_exec hs h.keeps).2
    · rw [hc]
      exact keepsRetries_claim member' h.keeps
    · rw [hc]
      exact keepsRetries_retry member' score h.keeps
  · rw [countP_cons_of_neg (by simp [ha.notifies])]
    exact h.posts

theorem Locates.take (h : Locates codec sv x row place st tr t.pre)
    (hc : t.cmd = .callbacks (.claim member)) (hin : t.pre.Waits codec x member) :
    Locates codec sv x row (.held j) (Function.update st j true) (t :: tr) (t.pre.exec t.cmd) := by
  obtain rfl := (h.waits member).mp hin
  refine ⟨?_, fun member' => ?_, ?_, ?_, h.unchanged.of_db ?_⟩
  · rw [h.carrier]
    funext k
    by_cases hk : k = j
    · subst hk
      simp [Whereabouts.carrier]
    · simp [Whereabouts.carrier, hk]
  · rw [hc, waits_claim, h.waits member']
    constructor
    · rintro ⟨hs, hne⟩
      cases hs
      exact absurd rfl hne
    · intro hh
      cases hh
  · rw [hc]
    exact keepsRetries_claim member h.keeps
  · rw [countP_cons_of_neg (by simp [Step.notifies, hc])]
    exact h.posts
  · exact exec_db_of_not_commit (by simp [hc])

theorem update_carrier_held (k : Nat) : Function.update (Whereabouts.held j).carrier j false k = false := by
  by_cases hk : k = j
  · subst hk
    simp
  · simp [Whereabouts.carrier, hk]

theorem Locates.post {request : CallbackPost} (h : Locates codec sv x row (.held j) st tr t.pre)
    (hc : t.cmd = .post request) (hk : request.idempotencyKey = x) :
    Locates codec sv x row .posted (Function.update st j false) (t :: tr) (t.pre.exec t.cmd) := by
  have hs : t.pre.exec t.cmd = t.pre := by
    rw [hc]
    rfl
  rw [hs]
  refine ⟨?_, fun member => ?_, h.keeps, ?_, h.unchanged⟩
  · rw [h.carrier]
    exact funext update_carrier_held
  · rw [h.waits member]
    simp
  · rw [countP_cons_of_pos (by simp [Step.notifies, hc, hk]), h.posts]
    rfl

theorem Locates.enqueue {score : ℚ} (h : Locates codec sv x row (.held j) st tr t.pre)
    (hc : t.cmd = .callbackRetry member score []) (hof : (codec.ofTask x member).isSome = true) :
    Locates codec sv x row (.queued member) (Function.update st j false) (t :: tr) (t.pre.exec t.cmd) := by
  refine ⟨?_, fun member' => ?_, ?_, ?_, h.unchanged.of_db ?_⟩
  · rw [h.carrier]
    exact funext update_carrier_held
  · rw [hc, waits_retry, h.waits member', hof]
    simp [eq_comm]
  · rw [hc]
    exact keepsRetries_retry member score h.keeps
  · rw [countP_cons_of_neg (by simp [Step.notifies, hc])]
    exact h.posts
  · exact exec_db_of_not_commit (by simp [hc])

/-- Every step of the protocol moves the callback from one place to another. -/
theorem Locates.step {l l' : Bool} (h : Locates codec sv x row place st tr t.pre) (hl : st j = l)
    (hs : Carried codec sv x t l l') :
    ∃ place', Locates codec sv x row place' (Function.update st j l') (t :: tr) (t.pre.exec t.cmd) := by
  have hc : place.carrier j = l := by rw [← hl, h.carrier]
  cases hs with
  | aside ha =>
    refine ⟨place, ?_⟩
    rw [← hl, Function.update_eq_self]
    exact h.aside ha
  | take hcm hin => exact ⟨_, h.take hcm hin⟩
  | post hcm hk =>
    rw [Whereabouts.eq_held hc] at h
    exact ⟨_, h.post hcm hk⟩
  | enqueue hcm hof =>
    rw [Whereabouts.eq_held hc] at h
    exact ⟨_, h.enqueue hcm hof⟩

theorem commit_rejected {r : Completion} {row : Option TaskRecord} {write : DbWrite} {outbox : List DbWrite}
    (hno : ¬ r.Persists row) (hw : TaskCompletionNode.persistWrite r row = .ok write)
    (ho : r.Outbox outbox) (now : ℚ) (db : Mysql) : ∃ e, db.commit now (write :: outbox) = .error e := by
  rcases persistWrite_eq_ok hw with ⟨old, next, rfl, hn, rfl⟩ | ⟨rfl, record, hty, rfl⟩
  · have hs : next = r.status := by
      rcases nextStatus_eq_ok hn with ⟨-, -, h⟩ | ⟨-, -, h⟩
      · exact h
      · exact h
    subst hs
    cases ht : TaskStatus.ofText r.status with
    | none => exact refused_of_text ht _ _ outbox db now
    | some status =>
      refine refused_of_unfit (fun hf => hno ⟨old, status, rfl, hn, ht, hf⟩) ho _ db now
  · exact ⟨.integrityError "Column 'task_type' cannot be null",
      by simp only [Mysql.commit, Mysql.write, TaskInsert.toRow, hty]⟩

theorem commit_updates {writes : List DbWrite} (h : CallbackDispatchService.OnlyUpdates writes) (now : ℚ) (db : Mysql) :
    ∃ db', db.commit now writes = .ok db' ∧ db'.tasks = db.tasks ∧
      ∀ row ∈ db'.callbackOutbox, ∃ old ∈ db.callbackOutbox, row.taskId = old.taskId := by
  induction writes generalizing db with
  | nil => exact ⟨db, rfl, rfl, fun row hro => ⟨row, hro, rfl⟩⟩
  | cons write writes ih =>
    obtain ⟨id, u, rfl⟩ := h write mem_cons_self
    obtain ⟨db', hc, ht, hr⟩ := ih (fun write' hw' => h write' (mem_cons_of_mem _ hw'))
      { db with callbackOutbox := db.callbackOutbox.map fun row => if row.id = id then row.update u else row }
    refine ⟨db', hc, ht, fun row hro => ?_⟩
    obtain ⟨updated, hu, hs⟩ := hr row hro
    obtain ⟨old, hold, rfl⟩ := mem_map.mp hu
    refine ⟨old, hold, hs.trans ?_⟩
    split <;> rfl

variable {node : TaskCompletionNode} {r : Completion}

theorem undisturbed_of_db {c : Command} (hw : Unchanged sv x row w) (hdb : (w.exec c).db = w.db) :
    Undisturbed sv x c w := by
  intro ha
  rw [Rowless, hdb]
  exact ⟨(hw ha).1, rfl⟩

theorem undisturbed_updates {writes : List DbWrite} (hw : Unchanged sv x row w)
    (h : CallbackDispatchService.OnlyUpdates writes) : Undisturbed sv x (.commit writes) w := by
  intro ha
  obtain ⟨db', hc, ht, hr⟩ := commit_updates h w.redis.clock w.db
  have hdb : (w.exec (.commit writes)).db = db' := by simp only [World.exec, hc]
  rw [Rowless, hdb, ht]
  refine ⟨fun updated hu => ?_, rfl⟩
  obtain ⟨old, hold, hs⟩ := hr updated hu
  rw [hs]
  exact (hw ha).1 old hold

theorem exec_event (w : World) (event : TaskEventRow) :
    (w.exec (.commit [.insertTaskEvent event])).db.callbackOutbox = w.db.callbackOutbox ∧
      (w.exec (.commit [.insertTaskEvent event])).db.tasks = w.db.tasks := by
  simp only [World.exec, Mysql.commit, Mysql.write]
  split
  · rename_i db' hc
    split at hc
    · cases hc
    · rename_i db'' ho
      cases hc
      rw [Mysql.orElse_eq_ok ho]
      exact ⟨rfl, rfl⟩
  · exact ⟨rfl, rfl⟩

theorem undisturbed_event (hw : Unchanged sv x row w) (event : TaskEventRow) :
    Undisturbed sv x (.commit [.insertTaskEvent event]) w := by
  intro ha
  obtain ⟨ho, ht⟩ := exec_event w event
  rw [Rowless, ho, ht]
  exact ⟨(hw ha).1, rfl⟩

def Step.Smooth (sv : CallbackDispatchService) (x : String) (row : Option TaskRecord) (t : Step) : Prop :=
  t.input = .ok ∧ Unchanged sv x row t.pre

theorem carries_commit (codec : EventCodec) {writes : List DbWrite} (h : Undisturbed sv x (.commit writes) w)
    (l : Bool) (i : Fault) : carries codec sv x l ⟨.commit writes, i, w⟩ = some l := by
  cases l with
  | false => exact if_pos h
  | true => exact if_pos h

theorem issues_persist_aside (hn : ¬ (node.hasDb = true ∧ sv.active = true ∧ r.Persists row)) :
    Issues (Unchanged sv r.taskId row)
      (fun c => ∀ l w, Unchanged sv r.taskId row w → carries node.codec sv r.taskId l ⟨c, .ok, w⟩ = some l)
      (fun _ => True) (node.persist r) := by
  refine issues_persist (fun l w _ => by cases l <;> rfl) ?_ fun event l w hw => ?_
  · intro hdb w write outbox hw hwr ho l w' hw'
    refine carries_commit node.codec (fun ha => ?_) l .ok
    rw [(hw ha).2] at hwr
    have hr := commit_rejected (fun hp => hn ⟨hdb, ha, hp⟩) hwr ho w'.redis.clock w'.db
    obtain ⟨e, he⟩ := hr
    have hs : (w'.exec (.commit (write :: outbox))).db = w'.db := by simp only [World.exec, he]
    exact undisturbed_of_db hw' hs ha
  · exact carries_commit node.codec (undisturbed_event hw event) l .ok

theorem follows_ok {c : Command} {l : Bool} (l' : Bool) (h : ∀ w, carries node.codec sv x l ⟨c, .ok, w⟩ = some l') :
    Follows (Step.Smooth sv x row) (carries node.codec sv x) (fun l'' a => l'' = l' ∧ a = .ok ()) (perform c) l :=
  follows_await fun i w hs => by
    obtain rfl : i = .ok := hs.1
    exact ⟨l', h w, rfl, rfl⟩

theorem follows_time (l : Bool) :
    Follows (Step.Smooth sv x row) (carries node.codec sv x) (fun l' a => l' = l ∧ ∃ t, a = .ok t) time l :=
  follows_immediately fun i w _ => ⟨l, by cases l <;> rfl, rfl, _, rfl⟩

theorem follows_postCallback (url : String) {payload : CallbackPayload} (hp : payload.taskId = x) (left : Nat) :
    Follows (Step.Smooth sv x row) (carries node.codec sv x) (fun l a => l = false ∧ a = .ok true)
      (node.postCallback url payload (left + 1)) true := by
  refine Follows.bind (Q := fun l a => l = false ∧ a = .ok true) (follows_exceptException
    (Q := fun l a => l = false ∧ a = .ok true) ?_ (fun _ _ h => h) ?_ ?_) ?_ ?_
  · refine Follows.bind (follows_ok false fun w => if_pos hp) ?_ ?_
    · rintro l a ⟨rfl, -⟩
      split
      · exact (follows_ok false fun w => rfl).bind (fun l a h => ⟨h.1, rfl⟩) fun l e h => by cases h.2
      · exact ⟨rfl, rfl⟩
    · rintro l e ⟨-, he⟩
      cases he
  · rintro l e - ⟨-, he⟩
    cases he
  · rintro l e - ⟨-, he⟩
    cases he
  · rintro l sent ⟨rfl, hs⟩
    cases hs
    exact ⟨rfl, rfl⟩
  · rintro l e ⟨-, he⟩
    cases he

theorem follows_triggerCallback (hu : r.callbackUrl ≠ "") (hw : 0 < node.inlineRetries ∨ node.hasRedis = true) :
    Follows (Step.Smooth sv r.taskId row) (carries node.codec sv r.taskId) (fun l _ => l = false)
      (node.triggerCallback r) true := by
  unfold TaskCompletionNode.triggerCallback
  rw [if_neg hu]
  refine (follows_time true).bind ?_ ?_
  · rintro l t ⟨rfl, -⟩
    cases hre : node.inlineRetries with
    | succ left =>
      refine (follows_postCallback r.callbackUrl rfl left).bind ?_ ?_
      · rintro l sent ⟨rfl, hs⟩
        cases hs
        rfl
      · rintro l e ⟨rfl, -⟩
        rfl
    | zero =>
      have hr : node.hasRedis = true := hw.resolve_left (by omega)
      let event : CallbackEvent := ⟨r.taskId, r.callbackUrl, r.status, TaskCompletionNode.outputData r, ⌊t⌋, 1⟩
      have hof : (node.codec.ofTask r.taskId (node.codec.dumps event)).isSome = true :=
        congrArg Option.isSome (node.codec.ofTask_dumps event)
      change Follows _ _ _ (node.enqueueCallbackRetry event) true
      unfold TaskCompletionNode.enqueueCallbackRetry
      rw [if_pos hr]
      refine (follows_time true).bind ?_ ?_
      · rintro l t' ⟨rfl, -⟩
        refine Follows.mono (follows_ok false fun w => if_pos ⟨rfl, hof⟩) ?_
        intro l a h
        exact h.1
      · rintro l e ⟨-, t', he⟩
        cases he
  · rintro l e ⟨-, t, he⟩
    cases he

theorem follows_report {b : Bool} (htr : Follows (Step.Smooth sv r.taskId row) (carries node.codec sv r.taskId)
      (fun l _ => l = b) (node.triggerCallback r) true)
    (hn : ¬ (node.hasDb = true ∧ sv.active = true ∧ r.Persists row)) (schedule : List Nat) :
    Follows (Step.Smooth sv r.taskId row) (carries node.codec sv r.taskId) (fun l _ => l = b)
      (node.handleCompletion schedule r).void true := by
  have hg : Follows (Step.Smooth sv r.taskId row) (carries node.codec sv r.taskId)
      (fun l a => ∃ as, a = .ok as ∧ ∃ a : Except PyErr Unit, l = b)
      (Prog.gather Fault.interrupt schedule [node.persist r, node.triggerCallback r]) true := by
    refine Follows.gather (fun t ht => ?_) (fun t ht => ht.2) (fun l t ht hC => ?_) schedule (issues_persist_aside hn)
      htr
    · rw [ht.1]
      rfl
    · have hc := hC l t.pre ht.2
      rw [← ht.1] at hc
      exact hc
  refine (hg.bind (R := fun l _ => l = b) (fun l as h => ?_) fun l e h => ?_).bind (fun l _ hl => hl) fun l _ hl => hl
  · obtain ⟨-, -, -, hl⟩ := h
    exact hl
  · obtain ⟨-, -, -, hl⟩ := h
    exact hl

theorem Step.Smooth.reliable {t : Step} (h : Step.Smooth sv x row t) : Step.Reliable t := .inl h.1

theorem follows_otherMember (ho : node.codec.ofTask x member = none) :
    Follows (Step.Smooth sv x row) (carries node.codec sv x) (fun l _ => l = false) (node.processMember member) false := by
  have hi : Issues (fun _ => True) (fun c => ∀ i w, carries node.codec sv x false ⟨c, i, w⟩ = some false)
      (fun _ => True) (node.processMember member) := by
    refine node.issues_processMember (fun i w => by simp [carries, ho]) fun e he => ?_
    have hta : e.taskId ≠ x := fun hsa => by
      have hs := EventCodec.ofTask_eq_some.mpr ⟨he, hsa⟩
      rw [ho] at hs
      cases hs
    have hn : node.codec.ofTask x (node.codec.dumps { e with attempt := e.attempt + 1 }) = none := by
      simp [EventCodec.ofTask, node.codec.loads_dumps, hta]
    exact node.issues_deliverEvent (fun i w => rfl) (fun i w => if_neg hta) (fun i w => rfl)
      (fun score i w => if_pos ⟨rfl, hn⟩) (fun score i w => rfl) fun i w => rfl
  exact (Follows.of_issues (fun _ _ => trivial) (fun t _ ht => ht t.input t.pre) hi).mono fun _ _ h => h.1

theorem follows_ownMember {e : CallbackEvent} (hr : node.hasRedis = true)
    (hof : node.codec.ofTask x member = some e) :
    Follows (Step.Smooth sv x row) (carries node.codec sv x) (fun l _ => l = false) (node.processMember member) false := by
  obtain ⟨hlo, ht⟩ := EventCodec.ofTask_eq_some.mp hof
  have hn : ¬ TaskCompletionNode.MayFail (Step.Smooth sv x row) e := by
    rintro ⟨applied, w, hi, -⟩
    cases hi
  have hd : Follows (Step.Smooth sv x row) (carries node.codec sv x) (fun l _ => l = false)
      (node.deliverEvent member e) true := by
    refine follows_deliverEvent true hr (fun _ h => h.reliable) (fun w _ => if_pos ht)
      (fun applied w h => absurd h.1 (by simp)) (fun w _ => rfl) (fun i w _ => rfl)
      (fun hm => absurd hm hn) (fun hm => absurd hm hn) fun w _ => rfl
  refine Follows.bind (Q := fun l a => a = .ok l) (follows_await fun i w hs => ?_) ?_ ?_
  · obtain rfl : i = .ok := hs.1
    refine ⟨(w.redis.zscore callbackRetry member).isSome, ?_, rfl⟩
    simp [carries, hof]
  · rintro l removed hre
    cases hre
    cases l with
    | true =>
      rw [if_pos rfl, hlo]
      exact hd.bind (fun _ _ hl => hl) fun _ _ hl => hl
    | false => rfl
  · intro l e' he'
    cases he'

theorem follows_request (request : CallbackRequest) :
    Follows (Step.Smooth sv x row) (carries node.codec sv x) (fun l _ => l = false)
      ((callbackSystem node sv).program request) false := by
  cases request with
  | retry batchSize =>
    have hp : Follows (Step.Smooth sv x row) (carries node.codec sv x) (fun l _ => l = false)
        (node.processDueCallbacks batchSize) false := by
      refine node.follows_processDueCallbacks (fun i w _ => rfl) (fun hr member => ?_) batchSize
      cases hof : node.codec.ofTask x member with
      | none => exact follows_otherMember hof
      | some e => exact follows_ownMember hr hof
    exact hp.bind (fun _ _ hl => hl) fun _ _ hl => hl
  | dispatch order =>
    have hi : Issues (Unchanged sv x row)
        (fun c => ∀ w, Unchanged sv x row w → carries node.codec sv x false ⟨c, .ok, w⟩ = some false)
        (fun _ => True) (sv.processOnce order) := by
      refine sv.issues_processOnce order (fun w _ => rfl) (fun hdb hs w hw found hf w' _ => ?_) fun writes hwr w hw => ?_
      · have ha : sv.active = true := by rw [CallbackDispatchService.active, hdb, hs]; rfl
        exact if_neg ((hw ha).1 found hf)
      · exact if_pos (undisturbed_updates hw hwr)
    have hp : Follows (Step.Smooth sv x row) (carries node.codec sv x) (fun l _ => l = false)
        (sv.processOnce order) false := by
      refine (Follows.of_issues (fun t ht => ht.2) (fun t ht hC => ?_) hi).mono fun _ _ h => h.1
      have hc := hC t.pre ht.2
      rw [← ht.1] at hc
      exact hc
    exact hp.bind (fun _ _ hl => hl) fun _ _ hl => hl

/-- At every moment the callback is in one place, and each program knows whether it is with it. -/
theorem delivery_run {b : Bool} {schedule : List Nat}
    (hr : Follows (Step.Smooth sv r.taskId (w.db.tasks.find r.taskId)) (carries node.codec sv r.taskId)
      (fun l _ => l = b) (node.handleCompletion schedule r).void true)
    (hw : CallbackFree node.codec r.taskId w) (ms : List (Move CallbackRequest ℚ Fault))
    (hsta : ∀ request, Move.start request ∈ ms → b = false)
    (hok : ∀ t ∈ ((callbackSystem node sv).run (reporting node r schedule w) ms).trace, t.input = .ok) :
    let z := (callbackSystem node sv).run (reporting node r schedule w) ms
    ∃ place, Locates node.codec sv r.taskId (w.db.tasks.find r.taskId) place place.carrier z.trace z.world ∧
      (∀ j p, z.procs[j]? = some p → Follows (Step.Smooth sv r.taskId (w.db.tasks.find r.taskId))
        (carries node.codec sv r.taskId) (fun l _ => l = b) p (place.carrier j)) ∧
      ∀ j, place = .held j → j < z.procs.length := by
  let row := w.db.tasks.find r.taskId
  let G : (Nat → Bool) → List Step → World → Prop := fun st tr w => ∃ place, Locates node.codec sv r.taskId row place st tr w
  have hs : ∀ st tr w c i, G st tr w → i = .ok → Step.Smooth sv r.taskId row ⟨c, i, w⟩ := by
    rintro st tr w' c i ⟨place, hpl⟩ hi
    exact ⟨hi, hpl.unchanged⟩
  have hste : ∀ st tr w j c i l, G st tr w → Step.Smooth sv r.taskId row ⟨c, i, w⟩ →
      carries node.codec sv r.taskId (st j) ⟨c, i, w⟩ = some l →
      G (Function.update st j l) (⟨c, i, w⟩ :: tr) ((callbackSystem node sv).apply c i w) := by
    rintro st tr w' j c i l ⟨place, hpl⟩ hs' hl
    have ha : (callbackSystem node sv).apply c i w' = w'.exec c := hs'.reliable.apply_eq
    rw [ha]
    exact Locates.step (t := ⟨c, i, w'⟩) hpl rfl (carried_of_carries hl)
  have hpa : ∀ st tr w now i, G st tr w → i = .ok →
      G st (⟨.advance now, i, w⟩ :: tr) ((callbackSystem node sv).apply (.advance now) i w) := by
    rintro st tr w' now i ⟨place, hpl⟩ rfl
    exact ⟨place, Locates.aside (t := ⟨.advance now, .ok, w'⟩) hpl ⟨rfl, .inl rfl, .inr (by simp)⟩⟩
  have hst : System.Conforms (Step.Smooth sv r.taskId row) (carries node.codec sv r.taskId) (fun l _ => l = b) G
      false (Whereabouts.held 0).carrier (reporting node r schedule w) := by
    refine ⟨⟨.held 0, rfl, fun member => ?_, hw.keeps, rfl, fun _ => ⟨hw.rowless, rfl⟩⟩, fun j p hp => ?_, fun j hj => ?_⟩
    · simp [reporting, hw.unqueued member]
    · cases j with
      | zero =>
        cases hp
        exact hr
      | succ j => cases hp
    · simp only [reporting, length_singleton] at hj
      simp only [Whereabouts.carrier, decide_eq_false_iff_not]
      omega
  have hpr : ∀ request, Move.start request ∈ ms → Follows (Step.Smooth sv r.taskId row)
      (carries node.codec sv r.taskId) (fun l _ => l = b) ((callbackSystem node sv).program request) false := by
    intro request hre
    rw [hsta request hre]
    exact follows_request request
  obtain ⟨st, he, -⟩ := hst.run (H := fun t => t.input = .ok) hs hste hpa ms hpr hok
  obtain ⟨place, hpl⟩ := he.holds
  obtain rfl := hpl.carrier
  refine ⟨place, hpl, he.follows, ?_⟩
  rintro j rfl
  by_contra ho
  have hc := he.first j (by omega)
  simp [Whereabouts.carrier] at hc

theorem deliversOnce_of_unpersisted (hu : r.callbackUrl ≠ "") (hwa : 0 < node.inlineRetries ∨ node.hasRedis = true)
    {db : Mysql} (hn : ¬ (node.hasDb = true ∧ sv.active = true ∧ r.Persists (db.tasks.find r.taskId))) :
    DeliversOnce node sv r db := by
  rintro w schedule ms rfl hw z hok
  obtain ⟨place, hp, hpro, hh⟩ := delivery_run (follows_report (follows_triggerCallback hu hwa) hn schedule)
    hw ms (fun _ _ => rfl) hok
  rw [hp.posts]
  refine ⟨?_, fun hq => ?_⟩
  · cases place <;> simp [Whereabouts.posts]
  · cases place with
    | posted => rfl
    | queued member => exact absurd ((hp.waits member).mpr rfl) (hq.unqueued member)
    | held j =>
      -- whoever holds the callback has not ended
      have hpr := List.getElem?_eq_getElem (hh j rfl)
      have hf := hpro j _ hpr
      have hc : (Whereabouts.held j).carrier j = true := by simp [Whereabouts.carrier]
      rw [hc] at hf
      rcases hq.ended _ (mem_of_getElem? hpr) with ⟨a, hre⟩ | ⟨e, hr⟩
      · rw [hre] at hf
        cases hf
      · rw [hr] at hf
        cases hf

variable {db : Mysql}

theorem callbackFree_of_rowless (codec : EventCodec) (hdb : ∀ row ∈ db.callbackOutbox, row.taskId ≠ r.taskId) :
    CallbackFree codec r.taskId { World.empty with db } :=
  ⟨fun _ hw => SortedSet.mem_empty _ hw.1, rfl, hdb⟩

theorem issues_triggerCallback_idle {I : World → Prop} {C : Command → Prop} (hret : node.inlineRetries = 0)
    (hre : node.hasRedis = false) (hr : C .read) : Issues I C (fun _ => True) (node.triggerCallback r) := by
  unfold TaskCompletionNode.triggerCallback
  split
  · trivial
  · refine (issues_immediately (Q := fun _ => True) hr fun _ _ => trivial).bind fun t _ => ?_
    rw [hret]
    change Issues _ _ _ (node.enqueueCallbackRetry _)
    unfold TaskCompletionNode.enqueueCallbackRetry
    rw [if_neg (by simp [hre])]
    trivial

theorem follows_triggerCallback_idle {row : Option TaskRecord} (hret : node.inlineRetries = 0) (hre : node.hasRedis = false) :
    Follows (Step.Smooth sv r.taskId row) (carries node.codec sv r.taskId) (fun l _ => l = true)
      (node.triggerCallback r) true := by
  have hi : Issues (fun _ : World => True) (· = Command.read) (fun _ => True) (node.triggerCallback r) :=
    issues_triggerCallback_idle hret hre rfl
  refine (Follows.of_issues (fun _ _ => trivial) (fun t _ hr => ?_) hi).mono fun _ _ h => h.1
  simp only [carries, hr]

/-- Without an inline attempt, Redis and an outbox row nothing delivers the callback. -/
theorem not_deliversOnce_of_idle (hdb : ∀ row ∈ db.callbackOutbox, row.taskId ≠ r.taskId)
    (hret : node.inlineRetries = 0) (hr : node.hasRedis = false)
    (hn : ¬ (node.hasDb = true ∧ sv.active = true ∧ r.Persists (db.tasks.find r.taskId))) :
    ¬ DeliversOnce node sv r db := by
  intro ho
  let w : World := { World.empty with db }
  have hw : CallbackFree node.codec r.taskId w := callbackFree_of_rowless node.codec hdb
  obtain ⟨n, q, he, hru⟩ := System.run_alone (S := callbackSystem node sv) .ok (node.handleCompletion [] r).void [] [] w []
  let ms : List (Move CallbackRequest ℚ Fault) := List.replicate n (.step 0 .ok)
  let z := (callbackSystem node sv).run (reporting node r [] w) ms
  have hz : z = ⟨_, [q], _⟩ := hru
  have hok : ∀ t ∈ z.trace, t.input = .ok := by
    intro t ht
    rw [hz] at ht
    simp only [append_nil, mem_reverse] at ht
    exact Prog.input_of_mem_transitions ht
  have hs : ∀ request, Move.start request ∈ ms → true = false := by
    intro request hre
    cases eq_of_mem_replicate hre
  obtain ⟨place, hpl, hpr, -⟩ := delivery_run
    (follows_report (follows_triggerCallback_idle hret hr) hn []) hw ms hs hok
  have hq : z.procs[0]? = some q := by rw [hz]; rfl
  have hc : place.carrier 0 = true := by
    have hf := hpr 0 q hq
    rcases he with ⟨a, rfl⟩ | ⟨e, rfl⟩
    · exact hf
    · exact hf
  obtain rfl := Whereabouts.eq_held hc
  have hqu : Quiescent node sv r.taskId z := by
    refine ⟨fun p hp => ?_, fun member hwa => ?_, fun ha row hro hid => ?_⟩
    · rw [hz, mem_singleton] at hp
      exact hp ▸ he
    · cases (hpl.waits member).mp hwa
    · exact absurd hid ((hpl.unchanged ha).1 row hro)
  have hon := (ho w [] ms rfl hw hok).2 hqu
  rw [hpl.posts] at hon
  cases hon

def Offers (x : String) (w : World) : Prop :=
  ∃ row ∈ w.db.callbackOutbox, row.taskId = x ∧ row.deliveryStatus = .pending ∧ row.nextAttemptAt = none ∧
    ∀ other ∈ w.db.callbackOutbox, other.id = row.id → other = row

theorem Mysql.lt_nextOutboxId {db : Mysql} {row : CallbackOutboxRecord} (h : row ∈ db.callbackOutbox) :
    row.id < db.nextOutboxId := by
  have hm (ids : List Nat) (id : Nat) (hid : id ∈ ids) : id ≤ ids.foldr max 0 := by
    induction ids with
    | nil => cases hid
    | cons first rest ih =>
      rw [foldr_cons]
      rcases mem_cons.mp hid with rfl | hr
      · exact Nat.le_max_left ..
      · exact (ih hr).trans (Nat.le_max_right ..)
  exact Nat.lt_succ_of_le (hm _ _ (mem_map_of_mem h))

theorem offers_of_commit {status : TaskStatus} (hu : r.callbackUrl ≠ "") (hte : TaskStatus.ofText r.status = some status)
    (hf : r.Fits) {outbox : List DbWrite} (hou : r.Outbox outbox) (outputData : Option String) (errorMessage : String) :
    Offers r.taskId (w.exec (.commit (.updateTask r.taskId r.status outputData errorMessage :: outbox))) := by
  obtain ⟨-, timestamp, rfl⟩ := hou.resolve_left fun h => hu h.1
  obtain ⟨hid, ht, hc⟩ := hf.resolve_left hu
  obtain ⟨db, hco, hr⟩ : ∃ db, w.db.commit w.redis.clock [.updateTask r.taskId r.status outputData errorMessage,
      .insertOutbox ⟨r.taskId, r.tenantId, r.callbackUrl, r.status, TaskCompletionNode.outputData r, timestamp⟩] = .ok db ∧
      db.callbackOutbox = w.db.callbackOutbox ++ [⟨⟨r.taskId, r.tenantId, r.callbackUrl, r.status,
        TaskCompletionNode.outputData r, timestamp⟩, w.db.nextOutboxId, .pending, 0, none, none⟩] := by
    simp only [Mysql.commit, Mysql.write, hte, Mysql.orElse, Mysql.tooLong, Mysql.updateWhere, Mysql.nextOutboxId]
    simp [not_lt.mpr hid, not_lt.mpr ht, not_lt.mpr hc]
  have hdb : (w.exec (.commit [.updateTask r.taskId r.status outputData errorMessage,
      .insertOutbox ⟨r.taskId, r.tenantId, r.callbackUrl, r.status, TaskCompletionNode.outputData r, timestamp⟩])).db = db := by
    simp only [World.exec, hco]
  unfold Offers
  rw [hdb, hr]
  refine ⟨_, mem_append_right _ (mem_singleton_self _), rfl, rfl, rfl, fun other ho hs => ?_⟩
  rcases mem_append.mp ho with hold | hn
  · have hl := Mysql.lt_nextOutboxId hold
    simp only at hs
    omega
  · exact mem_singleton.mp hn

theorem offers_of_outbox {w w' : World} {x : String} (h : Offers x w) (hs : w'.db.callbackOutbox = w.db.callbackOutbox) :
    Offers x w' := by
  unfold Offers
  rw [hs]
  exact h

theorem offers_handleCompletion (hu : r.callbackUrl ≠ "") (hdb : node.hasDb = true)
    (hpe : r.Persists (w.db.tasks.find r.taskId)) :
    Offers r.taskId ((node.handleCompletion [] r).void.runWith Command.apply .ok w).2 := by
  obtain ⟨old, status, hr, hn, ht, hf⟩ := hpe
  have hco (w' : World) (outbox : List DbWrite) (hw' : w'.db.tasks.find r.taskId = some old) (ho : r.Outbox outbox) :
      Offers r.taskId (w'.exec (.commit (.updateTask r.taskId r.status (TaskCompletionNode.outputData r)
        (TaskCompletionNode.errorMessage r) :: outbox))) :=
    offers_of_commit hu ht hf ho _ _
  have he (row : TaskEventRow) : Keeps Command.apply .ok (Offers r.taskId) (.commit [.insertTaskEvent row]) :=
    fun w' hw' => offers_of_outbox hw' (exec_event w' row).1
  have hk (c : Command) (hc : ∀ writes, c ≠ .commit writes) :
      Keeps Command.apply .ok (fun w' => w'.db.tasks.find r.taskId = some old) c ∧
        Keeps Command.apply .ok (Offers r.taskId) c := by
    refine ⟨fun w' hw' => ?_, fun w' hw' => offers_of_outbox hw' ?_⟩
    · change (w'.exec c).db.tasks.find r.taskId = some old
      rw [exec_db_of_not_commit hc]
      exact hw'
    · exact congrArg Mysql.callbackOutbox (exec_db_of_not_commit hc)
  have hp := achieves_persist he hco hdb fun w' hw' => ⟨old, hw', hn⟩
  rw [Prog.runWith_void]
  unfold TaskCompletionNode.handleCompletion
  rw [Prog.bind_eq, Prog.pure_eq, world_gather]
  exact gather_achieves hp ⟨hk _ (by simp), fun _ => hk _ (by simp), hk _ (by simp),
    fun _ _ => hk _ (by simp)⟩ node [] hr

theorem selectDue_first {row : CallbackOutboxRecord} (hr : row ∈ w.db.callbackOutbox) (hp : row.deliveryStatus = .pending)
    (hn : row.nextAttemptAt = none) (hu : ∀ other ∈ w.db.callbackOutbox, other.id = row.id → other = row) (now : ℚ) :
    ∃ rest, CallbackDispatchService.selectDue [row.id] now w = row :: rest := by
  have hdu : row ∈ w.db.callbackOutbox.filter (·.isDue now) := by
    refine mem_filter.mpr ⟨hr, ?_⟩
    simp [CallbackOutboxRecord.isDue, hp, hn]
  have hfi : (w.db.callbackOutbox.filter (·.isDue now)).find? (·.id = row.id) = some row := by
    cases hf : (w.db.callbackOutbox.filter (·.isDue now)).find? (·.id = row.id) with
    | none => simpa using List.find?_eq_none.mp hf row hdu
    | some other =>
      have hid : other.id = row.id := by simpa using List.find?_some hf
      rw [hu other (mem_filter.mp (mem_of_find?_eq_some hf)).1 hid]
  refine ⟨((w.db.callbackOutbox.filter (·.isDue now)).filter (·.id ∉ [row.id])).take 49, ?_⟩
  have hd : [row.id].dedup = [row.id] := rfl
  simp only [CallbackDispatchService.selectDue, inOrder, hd, filterMap_cons, hfi, filterMap_nil]
  rfl

theorem path_processOnce {order : List Nat} {row : CallbackOutboxRecord} {rest : List CallbackOutboxRecord}
    (ha : sv.active = true) (hs : CallbackDispatchService.selectDue order w.redis.clock w = row :: rest) :
    ∃ q, Path Command.apply (sv.processOnce order).void w
      [⟨.read, .ok, w⟩, ⟨.read, .ok, w⟩, ⟨.post ⟨row.callbackUrl, row.payload, row.taskId, none⟩, .ok, w⟩] q w := by
  have hd : ∃ q, Path Command.apply (sv.deliverAll w.redis.clock (row :: rest)) w
      [⟨.post ⟨row.callbackUrl, row.payload, row.taskId, none⟩, .ok, w⟩] q w :=
    ⟨_, ((path_perform w _).bind_left _).handle_left _ |>.bind_left _⟩
  rw [← hs] at hd
  obtain ⟨q, hq⟩ := hd
  let save (rows : List CallbackOutboxRecord) (writes : List DbWrite) : Py Nat := (commit writes).bind fun _ => .ret rows.length
  let body (now : ℚ) : Py Nat := (query (CallbackDispatchService.selectDue order now)).bind fun rows =>
    (sv.deliverAll now rows).bind (save rows)
  have hb : Path Command.apply (body w.redis.clock) w
      [⟨.read, .ok, w⟩, ⟨.post ⟨row.callbackUrl, row.payload, row.taskId, none⟩, .ok, w⟩] _ w :=
    (path_query w _).bind (hq.bind_left _)
  have hp : sv.processOnce order = time.bind fun now => session (body now) := by
    unfold CallbackDispatchService.processOnce
    exact if_pos ha
  have ht : Path Command.apply time w [⟨.read, .ok, w⟩] (.ret w.redis.clock) w := path_immediately w .read _
  have hse : Path Command.apply (session (body w.redis.clock)) w
      [⟨.read, .ok, w⟩, ⟨.post ⟨row.callbackUrl, row.payload, row.taskId, none⟩, .ok, w⟩] _ w :=
    ((hb.bind_left _).handle_left _).ensure_left _
  rw [hp]
  exact ⟨_, (ht.bind (f := fun now => session (body now)) hse).bind_left _⟩

/-- With an outbox row and an active dispatcher the callback may go out more than once. -/
theorem not_deliversOnce_of_persisted {db : Mysql} (hur : r.callbackUrl ≠ "")
    (hdb : ∀ row ∈ db.callbackOutbox, row.taskId ≠ r.taskId) (hn : node.hasDb = true) (ha : sv.active = true)
    (hper : r.Persists (db.tasks.find r.taskId)) : ¬ DeliversOnce node sv r db := by
  intro ho
  let S := callbackSystem node sv
  let w : World := { World.empty with db }
  have hw : CallbackFree node.codec r.taskId w := callbackFree_of_rowless node.codec hdb
  -- the report by itself
  obtain ⟨n, q, -, hru⟩ := System.run_alone (S := S) .ok (node.handleCompletion [] r).void [] [] w []
  obtain ⟨row, hro, hta, hpe, hno, hu⟩ := offers_handleCompletion (w := w) hur hn hper
  let w₁ := ((node.handleCompletion [] r).void.runWith Command.apply .ok w).2
  let tr := ((node.handleCompletion [] r).void.transitions Command.apply .ok w).reverse
  -- two passes that both select its row
  obtain ⟨rest, hsel⟩ := selectDue_first hro hpe hno hu w₁.redis.clock
  obtain ⟨q', hp⟩ := path_processOnce ha hsel
  let pass : CallbackRequest := .dispatch [row.id]
  let z : Sys Command Fault World PyErr := ⟨w₁, [q, S.program pass, S.program pass], tr⟩
  obtain ⟨ms₁, -, hw₁, hp₁, ht₁, -⟩ := Path.exists_run S hp 1 (z := z) rfl rfl
  have hse : (S.run z ms₁).procs[2]? = some (S.program pass) := by
    rw [hp₁]
    rfl
  obtain ⟨ms₂, -, -, -, ht₂, -⟩ := Path.exists_run S hp 2 hw₁ hse
  let ms : List (Move CallbackRequest ℚ Fault) :=
    List.replicate n (.step 0 .ok) ++ ([.start pass, .start pass] ++ (ms₁ ++ ms₂))
  have he : S.run (reporting node r [] w) ms = S.run (S.run z ms₁) ms₂ := by
    rw [System.run_append, System.run_append, System.run_append]
    have hr : S.run (reporting node r [] w) (List.replicate n (.step 0 .ok)) = ⟨w₁, [q], tr⟩ := by
      rw [← append_nil tr]
      exact hru
    rw [hr]
    rfl
  let steps : List Step := [⟨.read, .ok, w₁⟩, ⟨.read, .ok, w₁⟩,
    ⟨.post ⟨row.callbackUrl, row.payload, row.taskId, none⟩, .ok, w₁⟩]
  have htr : (S.run (reporting node r [] w) ms).trace = steps.reverse ++ (steps.reverse ++ tr) := by
    rw [he, ht₂, ht₁]
  have hok : ∀ t ∈ (S.run (reporting node r [] w) ms).trace, t.input = .ok := by
    intro t ht
    have hs : ∀ t' ∈ steps.reverse, t'.input = .ok := by simp [steps]
    rw [htr] at ht
    rcases mem_append.mp ht with hl | ht
    · exact hs t hl
    · rcases mem_append.mp ht with hf | hr
      · exact hs t hf
      · exact Prog.input_of_mem_transitions (mem_reverse.mp hr)
  have hpo := (ho w [] ms rfl hw hok).1
  have hon : steps.reverse.countP (Step.notifies r.taskId) = 1 := by simp [steps, Step.notifies, hta]
  rw [htr, countP_append, countP_append, hon] at hpo
  omega

end AsyncScheduler
