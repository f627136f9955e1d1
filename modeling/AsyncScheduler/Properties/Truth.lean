import AsyncScheduler.Properties.Delivery

/-!
# True callbacks

A callback names the status that was reported.
-/

namespace AsyncScheduler
open QueueKeys TaskCompletionNode List Prog

/-- The durable row of the task has the status, compared as its column compares. -/
def RowMatches (x status : String) (w : World) : Prop :=
  ∃ row, w.db.tasks.find x = some row ∧ TaskStatus.ofText status = some row.status

instance (x status : String) (w : World) : Decidable (RowMatches x status w) :=
  decidable_of_iff ((w.db.tasks.find x).any (fun row => TaskStatus.ofText status = some row.status) = true)
    (by simp [RowMatches, Option.any_eq_true])

def Step.announces (x status : String) (t : Step) : Bool :=
  match t.cmd with
  | .post request => request.payload.taskId = x && request.payload.status = status
  | _ => false

/-- Whatever fails: once the report has ended, each announcement of its status is matched by the row, then or later. -/
def Announced (node : TaskCompletionNode) (sv : CallbackDispatchService) (r : Completion) (db : Mysql) : Prop :=
  ∀ w schedule ms, w.db = db → CallbackFree node.codec r.taskId w →
    let z := (callbackSystem node sv).run (reporting node r schedule w) ms
    (∀ c n, z.procs[0]? ≠ some (.act c n)) →
    ∀ later t earlier, z.trace = later ++ t :: earlier → Step.announces r.taskId r.status t = true →
      RowMatches r.taskId r.status t.pre ∨ (∃ t' ∈ later, RowMatches r.taskId r.status t'.pre) ∨
        RowMatches r.taskId r.status z.world

section
variable (x status : String)

def Backed (w : World) : Prop := RowMatches x status w ∨ Rowless x w

instance (w : World) : Decidable (Backed x status w) := inferInstanceAs (Decidable (_ ∨ _))

/-- The command leaves a matching row, and brings rows of the outbox only with one. -/
structure SparesRow (c : Command) (w : World) : Prop where
  row : RowMatches x status w → RowMatches x status (w.exec c)
  backed : Backed x status w → Backed x status (w.exec c)
  exists_iff : (w.exec c).db.tasks.find x = none ↔ w.db.tasks.find x = none

instance (c : Command) (w : World) : Decidable (SparesRow x status c w) :=
  decidable_of_iff ((RowMatches x status w → RowMatches x status (w.exec c)) ∧
      (Backed x status w → Backed x status (w.exec c)) ∧ ((w.exec c).db.tasks.find x = none ↔ w.db.tasks.find x = none))
    ⟨fun h => ⟨h.1, h.2.1, h.2.2⟩, fun h => ⟨h.row, h.backed, h.exists_iff⟩⟩

end

variable {x status : String} {w : World} {c : Command}

theorem sparesRow_of_db (h : (w.exec c).db = w.db) : SparesRow x status c w := by
  refine ⟨fun hm => ?_, fun hb => ?_, by rw [h]⟩
  · unfold RowMatches
    rw [h]
    exact hm
  · unfold Backed RowMatches Rowless
    rw [h]
    exact hb

theorem sparesRow_of_not_commit (h : ∀ writes, c ≠ .commit writes) : SparesRow x status c w :=
  sparesRow_of_db (exec_db_of_not_commit h)

theorem sparesRow_of_tasks (ht : (w.exec c).db.tasks = w.db.tasks)
    (hro : ∀ row ∈ (w.exec c).db.callbackOutbox, ∃ old ∈ w.db.callbackOutbox, row.taskId = old.taskId) :
    SparesRow x status c w := by
  have hm : RowMatches x status (w.exec c) ↔ RowMatches x status w := by
    unfold RowMatches
    rw [ht]
  refine ⟨hm.mpr, fun hb => ?_, by rw [ht]⟩
  rcases hb with hrow | hr
  · exact .inl (hm.mpr hrow)
  · refine .inr fun row hrow => ?_
    obtain ⟨old, hold, hs⟩ := hro row hrow
    rw [hs]
    exact hr old hold

theorem sparesRow_updates {writes : List DbWrite} (h : CallbackDispatchService.OnlyUpdates writes) :
    SparesRow x status (.commit writes) w := by
  obtain ⟨db', hc, ht, hr⟩ := commit_updates h w.redis.clock w.db
  have hdb : (w.exec (.commit writes)).db = db' := by simp only [World.exec, hc]
  refine sparesRow_of_tasks ?_ ?_
  · rw [hdb, ht]
  · rw [hdb]
    exact hr

theorem sparesRow_event (event : TaskEventRow) : SparesRow x status (.commit [.insertTaskEvent event]) w := by
  obtain ⟨ho, ht⟩ := exec_event w event
  refine sparesRow_of_tasks ht fun row hr => ⟨row, ?_, rfl⟩
  rw [ho] at hr
  exact hr

theorem sparesRow_final {r : Completion} {row : Option TaskRecord} {write : DbWrite} {outbox : List DbWrite}
    (hr : row = none ↔ w.db.tasks.find r.taskId = none) (hw : TaskCompletionNode.persistWrite r row = .ok write)
    (ho : r.Outbox outbox) : SparesRow r.taskId r.status (.commit (write :: outbox)) w := by
  rcases db_exec w (.commit (write :: outbox)) with hs | ⟨writes, db', hcm, hco, hdb⟩
  · exact sparesRow_of_db hs
  cases hcm
  have hp : r.Persists row := by
    by_contra hnot
    obtain ⟨e, he⟩ := commit_rejected hnot hw ho w.redis.clock w.db
    rw [hco] at he
    cases he
  obtain ⟨old, s, rfl, hn, ht, hfi⟩ := hp
  obtain ⟨current, hc⟩ : ∃ current, w.db.tasks.find r.taskId = some current := by
    refine Option.ne_none_iff_exists'.mp fun hno => ?_
    cases hr.mpr hno
  have hw' : write = .updateTask r.taskId r.status (TaskCompletionNode.outputData r)
      (TaskCompletionNode.errorMessage r) := by
    simpa [TaskCompletionNode.persistWrite, hn, Except.map] using hw.symm
  subst hw'
  obtain ⟨final, hf, hst⟩ := hasStatus_final ht hfi ⟨current, hc⟩ ho
  have hm : RowMatches r.taskId r.status (w.exec (.commit (_ :: outbox))) := ⟨final, hf, hst ▸ ht⟩
  refine ⟨fun _ => hm, fun _ => .inl hm, ?_⟩
  rw [hf, hc]
  simp

section
variable (x status : String)

/-- Whether a program has seen the row match; nobody announces the status before. -/
def witnessed (l : Bool) (t : Step) : Option Bool :=
  if (Step.announces x status t = true → l = true) ∧ SparesRow x status t.cmd t.pre then
    some (l || RowMatches x status t.pre)
  else
    none

/-- A step where the rows of the outbox are backed; `missing` is whether the task has no row. -/
def Step.Backs (missing : Prop) (t : Step) : Prop :=
  Backed x status t.pre ∧ (t.pre.db.tasks.find x = none ↔ missing)

end

variable {missing : Prop}

section
variable {l : Bool} {α : Type} {p : Py α} {P : α → Prop}

theorem witnessed_of {t : Step} (hq : Step.announces x status t = true → l = true)
    (hs : SparesRow x status t.cmd t.pre) : witnessed x status l t = some (l || RowMatches x status t.pre) :=
  if_pos ⟨hq, hs⟩

theorem follows_quiet
    (hp : Issues (fun w => w.db.tasks.find x = none ↔ missing) (fun c => (∀ i w, Step.announces x status ⟨c, i, w⟩ = false) ∧
      ∀ w, (w.db.tasks.find x = none ↔ missing) → SparesRow x status c w) P p) :
    Follows (Step.Backs x status missing) (witnessed x status) (fun _ a => Issues.Settled P a) p l := by
  refine (Follows.of_allowed (M := fun _ => True) (fun t ht => ht.2) (fun l t _ ht hC => ?_) hp trivial).mono fun _ _ h => h.2
  refine ⟨_, witnessed_of (fun h => ?_) (hC.2 t.pre ht.2), trivial⟩
  rw [hC.1 t.input t.pre] at h
  cases h

theorem follows_informed (hp : Issues (fun w => w.db.tasks.find x = none ↔ missing)
      (fun c => ∀ w, (w.db.tasks.find x = none ↔ missing) → SparesRow x status c w) P p) :
    Follows (Step.Backs x status missing) (witnessed x status) (fun _ a => Issues.Settled P a) p true := by
  refine (Follows.of_allowed (M := fun l => l = true) (fun t ht => ht.2) (fun l t hl ht hC => ?_) hp rfl).mono fun _ _ h => h.2
  subst hl
  exact ⟨_, witnessed_of (fun _ => rfl) (hC t.pre ht.2), rfl⟩

variable {node : TaskCompletionNode} {sv : CallbackDispatchService} {r : Completion}

theorem issues_report {C : Command → Prop} (hc : ∀ writes, (∀ w, (w.db.tasks.find r.taskId = none ↔ missing) →
      SparesRow r.taskId r.status (.commit writes) w) → C (.commit writes))
    (ht : Issues (fun w => w.db.tasks.find r.taskId = none ↔ missing) C (fun _ => True) (node.triggerCallback r))
    (hr : C .read) (schedule : List Nat) :
    Issues (fun w => w.db.tasks.find r.taskId = none ↔ missing) C (fun _ => True) (node.handleCompletion schedule r).void := by
  refine Issues.void ((Issues.gather (Q := fun _ => True) fun p hp => ?_).bind (R := fun _ => True) fun _ _ => trivial)
  simp only [mem_cons, not_mem_nil, or_false] at hp
  rcases hp with rfl | rfl
  · refine issues_persist hr (fun _ w write outbox hw hwr ho => ?_) fun event => ?_
    · exact hc _ fun w' hw' => sparesRow_final (hw.trans hw'.symm) hwr ho
    · exact hc _ fun w' _ => sparesRow_event event
  · exact ht

theorem follows_dispatch (order : List Nat) :
    Follows (Step.Backs x status missing) (witnessed x status) (fun _ _ => True) (sv.processOnce order) false := by
  have hre (l : Bool) (i : Fault) (w : World) :
      witnessed x status l ⟨.read, i, w⟩ = some (l || RowMatches x status w) :=
    witnessed_of (fun h => by cases h) (sparesRow_of_not_commit (by simp))
  have ho (c : Command) (hc : ∀ writes, c ≠ .commit writes) (w : World)
      (_ : w.db.tasks.find x = none ↔ missing) : SparesRow x status c w := sparesRow_of_not_commit hc
  unfold CallbackDispatchService.processOnce
  split
  · refine Follows.bind (Q := fun _ _ => True) (follows_immediately fun i w _ => ⟨_, hre false i w, trivial⟩)
      (fun l now _ => ?_) fun _ _ _ => trivial
    refine follows_session (fun l i w _ => ⟨_, hre l i w⟩) ?_
    refine Follows.bind (Q := fun l a => ∀ rows, a = .ok rows → l = true ∨ ∀ row ∈ rows, row.taskId ≠ x)
      (follows_await fun i w hb => ⟨_, hre l i w, fun rows hr => ?_⟩) (fun l rows hr => ?_) fun _ _ _ => trivial
    · have hs : CallbackDispatchService.selectDue order now w = rows := by
        cases i with
        | ok => exact Except.ok.inj hr
        | fail applied => cases hr
        | cancel applied => cases hr
      rcases hb.1 with hm | hro
      · exact .inl (by simp [hm])
      · refine .inr fun row hrow => hro row ?_
        rw [← hs] at hrow
        exact (CallbackDispatchService.mem_of_mem_selectDue hrow).1
    · rcases hr rows rfl with rfl | hot
      · refine (follows_informed (sv.issues_deliverRows now (fun row _ => ho _ (by simp)) fun writes hw w _ => ?_)).mono
          fun _ _ _ => trivial
        exact sparesRow_updates hw
      · refine (follows_quiet (sv.issues_deliverRows now (fun row hrow => ⟨fun i w => ?_, ho _ (by simp)⟩)
          fun writes hw => ⟨fun _ _ => rfl, fun w _ => sparesRow_updates hw⟩)).mono fun _ _ _ => trivial
        have ht : row.payload.taskId ≠ x := hot row hrow
        simp [Step.announces, ht]
  · trivial

theorem follows_report_idle (hret : node.inlineRetries = 0) (hre : node.hasRedis = false) (schedule : List Nat) :
    Follows (Step.Backs r.taskId r.status missing) (witnessed r.taskId r.status) (fun _ _ => True)
      (node.handleCompletion schedule r).void false := by
  have hr : (∀ i w, Step.announces r.taskId r.status ⟨.read, i, w⟩ = false) ∧
      ∀ w, (w.db.tasks.find r.taskId = none ↔ missing) → SparesRow r.taskId r.status .read w :=
    ⟨fun _ _ => rfl, fun _ _ => sparesRow_of_not_commit (by simp)⟩
  exact (follows_quiet (issues_report (fun writes h => ⟨fun _ _ => rfl, h⟩)
    (issues_triggerCallback_idle hret hre hr) hr schedule)).mono fun _ _ _ => trivial

theorem follows_request_idle (hr : node.hasRedis = false) (request : CallbackRequest) :
    Follows (Step.Backs x status missing) (witnessed x status) (fun _ _ => True)
      ((callbackSystem node sv).program request) false := by
  cases request with
  | retry batchSize =>
    have hn : node.processDueCallbacks batchSize = .ret 0 := if_neg (by simp [hr])
    change Follows _ _ _ (node.processDueCallbacks batchSize).void _
    rw [hn]
    trivial
  | dispatch order => exact (follows_dispatch order).bind (fun _ _ _ => trivial) fun _ _ _ => trivial

theorem follows_report_informed (schedule : List Nat) :
    Follows (Step.Backs r.taskId r.status missing) (witnessed r.taskId r.status) (fun _ _ => True)
      (node.handleCompletion schedule r).void true := by
  have ho (c : Command) (hc : ∀ writes, c ≠ .commit writes) (w : World)
      (_ : w.db.tasks.find r.taskId = none ↔ missing) : SparesRow r.taskId r.status c w := sparesRow_of_not_commit hc
  refine (follows_informed (issues_report (fun writes h => h) ?_ (ho _ (by simp)) schedule)).mono fun _ _ _ => trivial
  exact issues_triggerCallback ⟨ho _ (by simp), fun _ => ho _ (by simp), ho _ (by simp),
    fun _ _ => ho _ (by simp)⟩ node

theorem follows_request_informed (request : CallbackRequest) :
    Follows (Step.Backs x status missing) (witnessed x status) (fun _ _ => True)
      ((callbackSystem node sv).program request) true := by
  have ho (c : Command) (hc : ∀ writes, c ≠ .commit writes) (w : World)
      (_ : w.db.tasks.find x = none ↔ missing) : SparesRow x status c w := sparesRow_of_not_commit hc
  cases request with
  | retry batchSize =>
    refine (follows_informed (Issues.void (Q := fun _ => True) ?_)).mono fun _ _ _ => trivial
    refine node.issues_processDueCallbacks (ho _ (by simp)) (fun member => ?_) batchSize
    refine node.issues_processMember (ho _ (by simp)) fun e _ => ?_
    exact node.issues_deliverEvent (ho _ (by simp)) (ho _ (by simp)) (ho _ (by simp))
      (fun _ => ho _ (by simp)) (fun _ => ho _ (by simp)) (ho _ (by simp))
  | dispatch order =>
    have hi := sv.issues_processOnce (I := fun w => w.db.tasks.find x = none ↔ missing)
      (C := fun c => ∀ w, (w.db.tasks.find x = none ↔ missing) → SparesRow x status c w) order (ho _ (by simp))
      (fun _ _ _ _ _ _ => ho _ (by simp)) fun writes hw w _ => sparesRow_updates hw
    exact ((follows_informed hi).mono fun _ _ _ => trivial).bind (fun _ _ _ => trivial) fun _ _ _ => trivial

end

variable {node : TaskCompletionNode} {r : Completion}

section
variable {w : World} {sv : CallbackDispatchService} {db : Mysql}

theorem matches_apply {x status : String} {c : Command} (hs : SparesRow x status c w) (i : Fault) :
    (RowMatches x status w → RowMatches x status (c.apply i w)) ∧ (Backed x status w → Backed x status (c.apply i w)) ∧
      ((c.apply i w).db.tasks.find x = none ↔ w.db.tasks.find x = none) := by
  unfold Command.apply
  split
  · exact ⟨hs.row, hs.backed, hs.exists_iff⟩
  · exact ⟨id, id, Iff.rfl⟩

/-- What programs of the protocol announce is the status of the row at that moment. -/
theorem announced_run (sv : CallbackDispatchService) (l₀ : Bool) {schedule : List Nat} (hw : CallbackFree node.codec r.taskId w)
    (hl₀ : l₀ = true → RowMatches r.taskId r.status w)
    (hr : Follows (Step.Backs r.taskId r.status (w.db.tasks.find r.taskId = none)) (witnessed r.taskId r.status)
      (fun _ _ => True) (node.handleCompletion schedule r).void l₀)
    (hre : ∀ request, Follows (Step.Backs r.taskId r.status (w.db.tasks.find r.taskId = none))
      (witnessed r.taskId r.status) (fun _ _ => True) ((callbackSystem node sv).program request) l₀)
    (ms : List (Move CallbackRequest ℚ Fault)) :
    ∀ t ∈ ((callbackSystem node sv).run (reporting node r schedule w) ms).trace,
      Step.announces r.taskId r.status t = true → RowMatches r.taskId r.status t.pre := by
  let x := r.taskId
  let status := r.status
  let missing := w.db.tasks.find x = none
  let G : (Nat → Bool) → List Step → World → Prop := fun st tr w =>
    (Backed x status w ∧ (w.db.tasks.find x = none ↔ missing)) ∧ (∀ j, st j = true → RowMatches x status w) ∧
      ∀ t ∈ tr, Step.announces x status t = true → RowMatches x status t.pre
  have hste : ∀ st tr w j c i l, G st tr w → Step.Backs x status missing ⟨c, i, w⟩ →
      witnessed x status (st j) ⟨c, i, w⟩ = some l →
      G (Function.update st j l) (⟨c, i, w⟩ :: tr) ((callbackSystem node sv).apply c i w) := by
    rintro st tr w' j c i l ⟨⟨hba, he⟩, hs, htr⟩ - hl
    unfold witnessed at hl
    split at hl
    · rename_i hal
      obtain ⟨hq, hsp⟩ := hal
      cases hl
      obtain ⟨hro, hb, hsa⟩ := matches_apply hsp i
      refine ⟨⟨hb hba, hsa.trans he⟩, fun k hk => hro ?_, fun t ht ha => ?_⟩
      · by_cases hkj : k = j
        · subst hkj
          rw [Function.update_self, Bool.or_eq_true, decide_eq_true_iff] at hk
          exact hk.elim (hs k) id
        · rw [Function.update_of_ne hkj] at hk
          exact hs k hk
      · rcases mem_cons.mp ht with rfl | ht
        · exact hs j (hq ha)
        · exact htr t ht ha
    · cases hl
  have hpa : ∀ st tr w now i, G st tr w → True →
      G st (⟨.advance now, i, w⟩ :: tr) ((callbackSystem node sv).apply (.advance now) i w) := by
    rintro st tr w' now i ⟨⟨hba, he⟩, hs, htr⟩ -
    have hsp : SparesRow x status (.advance now) w' := sparesRow_of_not_commit (by simp)
    obtain ⟨hro, hb, hsa⟩ := matches_apply hsp i
    refine ⟨⟨hb hba, hsa.trans he⟩, fun k hk => hro (hs k hk), fun t ht ha => ?_⟩
    rcases mem_cons.mp ht with rfl | ht
    · cases ha
    · exact htr t ht ha
  have hst : System.Conforms (Step.Backs x status missing) (witnessed x status) (fun _ _ => True) G l₀ (fun _ => l₀)
      (reporting node r schedule w) := by
    refine ⟨⟨⟨.inr hw.rowless, Iff.rfl⟩, fun _ => hl₀, fun t ht => absurd ht not_mem_nil⟩, fun j p hp => ?_,
      fun _ _ => rfl⟩
    cases j with
    | zero =>
      cases hp
      exact hr
    | succ j => cases hp
  obtain ⟨st, hen, -⟩ := hst.run (H := fun _ => True) (fun _ _ _ _ _ h _ => h.1) hste hpa ms
    (fun request _ => hre request) fun _ _ => trivial
  exact hen.holds.2.2

theorem announced_of_matches
    (hr : ∃ row, db.tasks.find r.taskId = some row ∧ TaskStatus.ofText r.status = some row.status) :
    Announced node sv r db := by
  rintro w schedule ms rfl hw z - later t earlier ht ha
  refine .inl (announced_run sv true hw (fun _ => hr) (follows_report_informed schedule)
    follows_request_informed ms t ?_ ha)
  change t ∈ z.trace
  rw [ht]
  simp

theorem announced_of_idle (hre : node.inlineRetries = 0)
    (hr : node.hasRedis = false) : Announced node sv r db := by
  rintro w schedule ms rfl hw z - later t earlier ht ha
  refine .inl (announced_run sv false hw (by simp) (follows_report_idle hre hr schedule)
    (follows_request_idle hr) ms t ?_ ha)
  change t ∈ z.trace
  rw [ht]
  simp

end

variable {sv : CallbackDispatchService}

/-- What is left of a report whose `SELECT` fails. -/
def unwritten (node : TaskCompletionNode) (r : Completion) : Py Unit :=
  ((Prog.gather Fault.interrupt []
    [((query fun _ => ()).bind fun _ => .raise connectionLost).ensure fun _ => query fun _ => (), node.triggerCallback r]).bind
      fun _ => .ret true).void

theorem handleCompletion_unwritten (hn : node.hasDb = true) (r : Completion) :
    ∃ next, (node.handleCompletion [] r).void = .act .read next ∧ ∀ w, next (.fail false) w = unwritten node r := by
  unfold TaskCompletionNode.handleCompletion
  rw [persist_eq hn]
  exact ⟨_, rfl, fun w => rfl⟩

theorem issues_unwritten : Issues (fun _ : World => True) (fun c => ∀ writes, c ≠ .commit writes) (fun _ => True)
    (unwritten node r) := by
  refine Issues.void ((Issues.gather (Q := fun _ => True) fun p hp => ?_).bind (R := fun _ => True) fun _ _ => trivial)
  have hr : Issues (fun _ : World => True) (fun c => ∀ writes, c ≠ Command.commit writes) (fun _ => True)
      (query fun _ => ()) := issues_query (by simp) fun _ _ => trivial
  simp only [mem_cons, not_mem_nil, or_false] at hp
  rcases hp with rfl | rfl
  · exact Issues.ensure (hr.bind fun _ _ => trivial) (fun _ _ => hr) fun _ => hr
  · exact issues_triggerCallback ⟨by simp, by simp, by simp, by simp⟩ node

theorem not_announced_of_unwritten (hno : node.hasDb = true) (hw : CallbackFree node.codec r.taskId w)
    (hro : ¬ RowMatches r.taskId r.status w) (ms : List (Move CallbackRequest ℚ Fault))
    (hst : ∀ request, Move.start request ∈ ms → ∃ batchSize, request = .retry batchSize)
    {z : Sys Command Fault World PyErr}
    (hz : (callbackSystem node sv).run ⟨w, [unwritten node r], [⟨.read, .fail false, w⟩]⟩ ms = z)
    (he : ∀ c n, z.procs[0]? ≠ some (.act c n)) (han : ∃ t ∈ z.trace, Step.announces r.taskId r.status t = true) :
    ¬ Announced node sv r w.db := by
  intro ha
  obtain ⟨next, hp, hne⟩ := handleCompletion_unwritten hno r
  have hru : (callbackSystem node sv).run (reporting node r [] w) (.step 0 (.fail false) :: ms) = z := by
    have hmo : (callbackSystem node sv).move (reporting node r [] w) (.step 0 (.fail false)) =
        ⟨w, [unwritten node r], [⟨.read, .fail false, w⟩]⟩ := by
      unfold reporting
      rw [hp, ← hne w]
      rfl
    rw [← hz, ← hmo]
    rfl
  have hs : z.world.db = w.db ∧ ∀ t ∈ z.trace, t.pre.db = w.db := by
    rw [← hz]
    let J (tr : List Step) (w' : World) : Prop := w'.db = w.db ∧ ∀ t ∈ tr, t.pre.db = w.db
    let C (c : Command) : Prop := ∀ writes, c ≠ .commit writes
    refine (System.run_invariant_of_moves (I := fun _ => True) (C := C) (J := J) (fun _ _ _ => trivial) ?_ ?_ ?_ ?_ ?_).1
    · rintro tr w' c i hc ⟨hdb, htr⟩
      refine ⟨?_, forall_mem_cons.mpr ⟨hdb, htr⟩⟩
      change (c.apply i w').db = w.db
      unfold Command.apply
      split
      · rw [exec_db_of_not_commit hc, hdb]
      · exact hdb
    · intro request hr
      obtain ⟨batchSize, rfl⟩ := hst request hr
      refine Issues.void (node.issues_processDueCallbacks (by simp [C]) (fun member => ?_) batchSize)
      exact node.issues_processMember (by simp [C]) fun e _ =>
        node.issues_deliverEvent (by simp [C]) (by simp [C]) (by simp [C]) (by simp [C]) (by simp [C]) (by simp [C])
    · intro now i _
      exact fun writes h => by cases h
    · exact forall_mem_singleton.mpr issues_unwritten
    · exact ⟨rfl, forall_mem_singleton.mpr rfl⟩
  have hn (w' : World) (hw' : w'.db = w.db) : ¬ RowMatches r.taskId r.status w' := by
    unfold RowMatches
    rw [hw']
    exact hro
  obtain ⟨t, ht, hte⟩ := han
  obtain ⟨later, earlier, htra⟩ := append_of_mem ht
  have hm := ha w [] (.step 0 (.fail false) :: ms) rfl hw
  rw [hru] at hm
  rcases hm he later t earlier htra hte with hnow | ⟨t', ht', hla⟩ | hl
  · exact hn _ (hs.2 t ht) hnow
  · refine hn _ (hs.2 t' ?_) hla
    rw [htra]
    exact mem_append_left _ ht'
  · exact hn _ hs.1 hl

def announcing (node : TaskCompletionNode) (r : Completion) : Py Unit :=
  (((((node.triggerCallback r).settle Fault.interrupt).bind fun a => .ret [a]).bind
    fun as => .ret (.error connectionLost :: as)).bind fun _ => .ret true).void

theorem runWith_unwritten (w : World) :
    ((unwritten node r).runWith Command.apply .ok w).2 = ((node.triggerCallback r).runWith Command.apply .ok w).2 := by
  change ((announcing node r).runWith Command.apply .ok w).2 = _
  unfold announcing
  rw [runWith_void, runWith_bind, runWith_bind, runWith_bind, runWith_settle rfl]
  rfl

theorem mem_unwritten {t : Step} (ht : t ∈ (node.triggerCallback r).transitions Command.apply .ok w) :
    t ∈ (unwritten node r).transitions Command.apply .ok w := by
  change t ∈ _ :: _ :: (announcing node r).transitions Command.apply .ok w
  refine mem_cons_of_mem _ (mem_cons_of_mem _ ?_)
  refine mem_transitions_bind_left (mem_transitions_bind_left (mem_transitions_bind_left
    (mem_transitions_bind_left ?_)))
  exact mem_transitions_settle rfl ht

theorem triggerCallback_posts (node : TaskCompletionNode) (hu : r.callbackUrl ≠ "") (hr : 0 < node.inlineRetries) (w : World) :
    ∃ t ∈ (node.triggerCallback r).transitions Command.apply .ok w, Step.announces r.taskId r.status t = true := by
  obtain ⟨left, hl⟩ := Nat.exists_eq_succ_of_ne_zero hr.ne'
  unfold TaskCompletionNode.triggerCallback
  rw [if_neg hu, hl]
  refine ⟨_, mem_cons_of_mem _ mem_cons_self, ?_⟩
  simp [Step.announces]

def firstEvent (r : Completion) (now : ℚ) : CallbackEvent :=
  ⟨r.taskId, r.callbackUrl, r.status, TaskCompletionNode.outputData r, ⌊now⌋, 1⟩

theorem triggerCallback_enqueues (hu : r.callbackUrl ≠ "") (hre : node.inlineRetries = 0) (hr : node.hasRedis = true)
    (w : World) : ((node.triggerCallback r).runWith Command.apply .ok w).2 =
      w.exec (.callbackRetry (node.codec.dumps (firstEvent r w.redis.clock)) (w.redis.clock + 10) []) := by
  have hd : min (600 : ℚ) (10 * 2 ^ (1 - 1)) = 10 := by norm_num
  unfold TaskCompletionNode.triggerCallback
  rw [if_neg hu, hre, ← hd]
  unfold TaskCompletionNode.enqueueCallbackRetry
  simp only [if_pos hr]
  rfl

theorem path_processDue {e : CallbackEvent} {score : ℚ} (hr : node.hasRedis = true)
    (he : (w.redis.zsets callbackRetry).entries = [(node.codec.dumps e, score)]) (hd : score ≤ w.redis.clock) :
    ∃ q, Path Command.apply (node.processDueCallbacks (-1)).void w
      [⟨.read, .ok, w⟩, ⟨.read, .ok, w⟩, ⟨.callbacks (.claim (node.codec.dumps e)), .ok, w⟩,
        ⟨.post e.request, .ok, w.exec (.callbacks (.claim (node.codec.dumps e)))⟩] q
      (w.exec (.callbacks (.claim (node.codec.dumps e)))) := by
  let m := node.codec.dumps e
  have hme : TaskCompletionNode.dueMembers (-1) w.redis.clock w = [m] := by
    simp [TaskCompletionNode.dueMembers, Redis.zrangeTo, he, hd, m]
  have hin : (w.redis.zscore callbackRetry m).isSome = true := by
    refine zscore_isSome_iff.mpr ?_
    change m ∈ (w.redis.zsets callbackRetry).entries.map Prod.fst
    simp [he, m]
  have hc : Path Command.apply (await (.callbacks (.claim m)) fun w' => .ok (w'.redis.zscore callbackRetry m).isSome) w
      [⟨.callbacks (.claim m), .ok, w⟩] (.ret true) (w.exec (.callbacks (.claim m))) := path_await w _ (by rw [hin])
  have hs (w' : World) : ∃ q, Path Command.apply (node.deliverEvent m e) w' [⟨.post e.request, .ok, w'⟩] q w' :=
    ⟨_, ((path_perform w' (.post e.request)).bind_left _).handle_left _ |>.bind_left _⟩
  obtain ⟨q, hq⟩ := hs (w.exec (.callbacks (.claim m)))
  have hpr : ∃ q, Path Command.apply (node.processMember m) w
      [⟨.callbacks (.claim m), .ok, w⟩, ⟨.post e.request, .ok, w.exec (.callbacks (.claim m))⟩] q
      (w.exec (.callbacks (.claim m))) := by
    have hl : node.processMember m = (await (.callbacks (.claim m)) fun w' =>
        .ok (w'.redis.zscore callbackRetry m).isSome).bind fun removed =>
          if removed then (node.deliverEvent m e).bind fun _ => .ret true else .ret false := by
      unfold TaskCompletionNode.processMember
      rw [node.codec.loads_dumps]
      rfl
    rw [hl]
    exact ⟨_, hc.bind (hq.bind_left _)⟩
  obtain ⟨q', hq'⟩ := hpr
  have hp : node.processDueCallbacks (-1) = time.bind fun now =>
      (query (TaskCompletionNode.dueMembers (-1) now)).bind fun members => node.processMembers members 0 := if_pos hr
  have ht : Path Command.apply time w [⟨.read, .ok, w⟩] (.ret w.redis.clock) w := path_immediately w .read _
  have hre : ∃ q, Path Command.apply ((query (TaskCompletionNode.dueMembers (-1) w.redis.clock)).bind fun members =>
      node.processMembers members 0) w [⟨.read, .ok, w⟩, ⟨.callbacks (.claim m), .ok, w⟩,
        ⟨.post e.request, .ok, w.exec (.callbacks (.claim m))⟩] q (w.exec (.callbacks (.claim m))) := by
    have hm : ∃ q, Path Command.apply (node.processMembers (TaskCompletionNode.dueMembers (-1) w.redis.clock w) 0) w
        [⟨.callbacks (.claim m), .ok, w⟩, ⟨.post e.request, .ok, w.exec (.callbacks (.claim m))⟩] q
        (w.exec (.callbacks (.claim m))) := by
      rw [hme]
      exact ⟨_, hq'.bind_left _⟩
    obtain ⟨q, hq⟩ := hm
    exact ⟨q, (path_query w _).bind (f := fun members => node.processMembers members 0) hq⟩
  obtain ⟨q'', hq''⟩ := hre
  rw [hp]
  exact ⟨_, (ht.bind (f := fun now => (query (TaskCompletionNode.dueMembers (-1) now)).bind fun members =>
    node.processMembers members 0) hq'').bind_left _⟩

section
variable {db : Mysql} (hu : r.callbackUrl ≠ "") (hn : node.hasDb = true)
  (hdb : ∀ row ∈ db.callbackOutbox, row.taskId ≠ r.taskId)
  (hro : ¬ ∃ row, db.tasks.find r.taskId = some row ∧ TaskStatus.ofText r.status = some row.status)
include hu hn hdb hro

theorem not_announced_of_inline (hre : 0 < node.inlineRetries) : ¬ Announced node sv r db := by
  let w : World := { World.empty with db }
  obtain ⟨n, q, he, hru⟩ := System.run_alone (S := callbackSystem node sv) .ok (unwritten node r) [] [] w
    [⟨.read, .fail false, w⟩]
  obtain ⟨t, ht, ha⟩ := triggerCallback_posts node hu hre w
  refine not_announced_of_unwritten (w := w) hn (callbackFree_of_rowless node.codec hdb) hro _ (fun request hr => ?_)
    hru (fun c n => ?_) ⟨t, ?_, ha⟩
  · cases eq_of_mem_replicate hr
  · rcases he with ⟨a, rfl⟩ | ⟨e, rfl⟩ <;> simp
  · exact mem_append_left _ (mem_reverse.mpr (mem_unwritten ht))

/-- A callback put up for retry may announce what the row does not say. -/
theorem not_announced_of_retry (hret : node.inlineRetries = 0) (hr : node.hasRedis = true) :
    ¬ Announced node sv r db := by
  let S := callbackSystem node sv
  let w : World := { World.empty with db }
  obtain ⟨n, q, he, hru⟩ := System.run_alone (S := S) .ok (unwritten node r) [] [] w [⟨.read, .fail false, w⟩]
  let now := w.redis.clock
  let member := node.codec.dumps (firstEvent r now)
  let w₁ : World := w.exec (.callbackRetry member (now + 10) [])
  have hw : ((unwritten node r).runWith S.apply .ok w).2 = w₁ :=
    (runWith_unwritten w).trans (triggerCallback_enqueues hu hret hr w)
  -- ten seconds later a pass finds the entry
  let w₂ : World := w₁.exec (.advance (now + 10))
  have hk : w₁.KeepsRetries := keepsRetries_retry member (now + 10) rfl
  have hen : (w₂.redis.zsets callbackRetry).entries = [(member, now + 10)] := by
    have hs := (retrySet_exec (c := .advance (now + 10)) rfl hk).1
    rw [hs]
    rfl
  have hc : now + 10 ≤ w₂.redis.clock := by
    have hl : w₁.redis.clock < now + 10 := by
      change now < now + 10
      linarith
    change now + 10 ≤ (w₁.exec (.advance (now + 10))).redis.clock
    simp only [World.exec, if_pos hl]
    exact le_refl _
  obtain ⟨q', hpa⟩ := path_processDue hr hen hc
  let z : Sys Command Fault World PyErr :=
    ⟨w₂, [q, S.program (.retry (-1))], ⟨.advance (now + 10), .ok, w₁⟩ ::
      (((unwritten node r).transitions S.apply .ok w).reverse ++ [⟨.read, .fail false, w⟩])⟩
  obtain ⟨ms, hm, -, hpr, ht, -⟩ := Path.exists_run S hpa 1 (z := z) rfl rfl
  have hst : S.run ⟨w, [unwritten node r], [⟨.read, .fail false, w⟩]⟩
      (List.replicate n (.step 0 .ok) ++ ([.env (now + 10) .ok, .start (.retry (-1))] ++ ms)) = S.run z ms := by
    rw [System.run_append, System.run_append]
    rw [hw] at hru
    exact congrArg (fun s => S.run (S.run s [.env (now + 10) .ok, .start (.retry (-1))]) ms) hru
  refine not_announced_of_unwritten (w := w) hn (callbackFree_of_rowless node.codec hdb) hro _ (fun request hreq => ?_)
    hst (fun c n => ?_) ⟨⟨.post (firstEvent r now).request, .ok, w₂.exec (.callbacks (.claim member))⟩, ?_, ?_⟩
  · rcases mem_append.mp hreq with hre | hres
    · cases eq_of_mem_replicate hre
    · rcases mem_append.mp hres with hp | hl
      · simp only [mem_cons, Move.start.injEq, not_mem_nil, or_false, reduceCtorEq, false_or] at hp
        exact ⟨-1, hp⟩
      · obtain ⟨i, hi⟩ := hm _ hl
        cases hi
  · rw [hpr]
    rcases he with ⟨a, rfl⟩ | ⟨e, rfl⟩ <;> simp [z]
  · rw [ht]
    exact mem_append_left _ mem_cons_self
  · simp [Step.announces, CallbackEvent.request, CallbackEvent.payload, firstEvent]

end

/-- Every announcement of a report is true, whatever fails, exactly when the row has its status already, or nothing but
the outbox announces it. -/
theorem callbacks_true_iff (node : TaskCompletionNode) (sv : CallbackDispatchService) (r : Completion) (db : Mysql)
    (hurl : r.callbackUrl ≠ "") (hnode : node.hasDb = true) (hdb : ∀ row ∈ db.callbackOutbox, row.taskId ≠ r.taskId) :
    Announced node sv r db ↔
      (∃ row, db.tasks.find r.taskId = some row ∧ TaskStatus.ofText r.status = some row.status) ∨
        (node.inlineRetries = 0 ∧ node.hasRedis = false) := by
  constructor
  · intro ha
    by_contra hn
    obtain ⟨hro, hw⟩ := not_or.mp hn
    by_cases hre : node.inlineRetries = 0
    · have hr : node.hasRedis = true := by
        by_contra hr
        exact hw ⟨hre, by simpa using hr⟩
      exact not_announced_of_retry hurl hnode hdb hro hre hr ha
    · exact not_announced_of_inline hurl hnode hdb hro (by omega) ha
  · rintro (hro | ⟨hre, hr⟩)
    · exact announced_of_matches hro
    · exact announced_of_idle hre hr

/-- A running task whose completion is announced from the outbox, and only from there. -/
theorem callbacks_true_iff_outbox :
    let node := { TaskCompletionNode.plain with inlineRetries := 0, hasRedis := false }
    let w := World.storing (bareRow "t" .running)
    let z := (callbackSystem node {}).run (reporting node ⟨"t", "completed", none, "http://cb", ""⟩ [] w)
      (List.replicate 20 (.step 0 .ok) ++ .start (.dispatch []) :: List.replicate 20 (.step 1 .ok))
    (∃ t ∈ z.trace, Step.announces "t" "completed" t = true ∧ RowMatches "t" "completed" t.pre) ∧
      ¬ RowMatches "t" "completed" w ∧ Announced node {} ⟨"t", "completed", none, "http://cb", ""⟩ w.db := by
  intro node w z
  refine ⟨by decide +kernel, by decide +kernel, ?_⟩
  exact (callbacks_true_iff node {} _ w.db (by decide) rfl fun _ hr => absurd hr List.not_mem_nil).mpr (.inr ⟨rfl, rfl⟩)

/-- A cancelled task is announced as completed, and nothing fails. -/
theorem cancelled_announced_completed :
    let w := World.storing (bareRow "t" .cancelled)
    let z := (callbackSystem .plain {}).run (reporting .plain ⟨"t", "completed", none, "http://cb", ""⟩ [] w)
      (List.replicate 20 (.step 0 .ok))
    (∀ t ∈ z.trace, t.input = .ok) ∧ (∃ t ∈ z.trace, Step.announces "t" "completed" t = true) ∧
      (∀ t ∈ z.trace, ¬ RowMatches "t" "completed" t.pre) ∧ ¬ RowMatches "t" "completed" z.world ∧
      ∀ c n, z.procs[0]? ≠ some (.act c n) := by
  refine ⟨by decide +kernel, by decide +kernel, by decide +kernel, by decide +kernel, ?_⟩
  intro c n
  exact fun h => by cases h

end AsyncScheduler
