import AsyncScheduler.Platform.CallbackRun
import AsyncScheduler.Platform.TaskReconciler

/-!
# Entries of the callback retry set

The completion node adds the text of an event to the set, the reconciler the bare id of a task.
-/

namespace AsyncScheduler

namespace Step

def Claims (member : String) (t : Step) : Prop :=
  t.cmd = .callbacks (.claim member) ∧ t.input.applied = true ∧
    (t.pre.redis.zscore QueueKeys.callbackRetry member).isSome = true

/-- What may become of a claimed entry: it is sent, it is enqueued with a higher attempt, or it is put
in the dead-letter set. An entry that is no event has no request of its own, so any will do. -/
inductive Settles (codec : EventCodec) (member : String) : Step → Prop
  | sent {request : CallbackPost} {w : World}
    (h : ∀ e, codec.loads member = .event e → request = e.request) : Settles codec member ⟨.post request, .ok, w⟩
  | retried {e e' : CallbackEvent} {score : ℚ} {ops : List (String × KeyOp)} {w : World}
    (h : codec.loads member = .event e) (hsame : e' = { e with attempt := e'.attempt })
    (hlater : e.attempt < e'.attempt) : Settles codec member ⟨.callbackRetry (codec.dumps e') score ops, .ok, w⟩
  | buried {score : ℚ} {w : World} : Settles codec member ⟨.callbacks (.deadLetter member score), .ok, w⟩

def isClaim (t : Step) : Bool :=
  match t.cmd with
  | .callbacks (.claim _) => true
  | _ => false

theorem Claims.isClaim {member : String} {t : Step} (h : Claims member t) : Step.isClaim t = true := by
  simp [Step.isClaim, h.1]

theorem Settles.isClaim {codec : EventCodec} {member : String} {t : Step} (h : Settles codec member t) :
    Step.isClaim t = false := by
  cases h <;> rfl

end Step

namespace TaskCompletionNode

/-- In every pass that comes to its end with steps in `A`, a claimed entry is settled before the pass
turns to its next one. -/
def Keeps (node : TaskCompletionNode) (A : Step → Prop) (member : String) : Prop :=
  ∀ batchSize steps q before t after, Steps (node.processDueCallbacks batchSize) steps q →
    ((∃ n, q = .ret n) ∨ ∃ e, q = .raise e) → (∀ u ∈ steps, A u) → steps = before ++ t :: after →
    Step.Claims member t → ∃ u ∈ after.takeWhile (!Step.isClaim ·), Step.Settles node.codec member u

/-- An entry that `_enqueue_callback_retry` adds. -/
def Enqueues (node : TaskCompletionNode) (member : String) : Prop :=
  ∃ event steps q score ops, Steps (node.enqueueCallbackRetry event) steps q ∧
    ∃ t ∈ steps, t.cmd = .callbackRetry member score ops

end TaskCompletionNode

def TaskReconciler.Compensates (member : String) : Prop :=
  ∃ batch steps q score ops, Steps (TaskReconciler.phase3LostCallback batch) steps q ∧
    ∃ t ∈ steps, t.cmd = .callbackRetry member score ops

namespace TaskCompletionNode

open Classical in
/-- Whether the entry is claimed and not yet settled; then no other one may be claimed. -/
noncomputable def claimed (codec : EventCodec) (member : String) : Bool → Step → Option Bool
  | false, t => some (decide (Step.Claims member t))
  | true, t =>
    if Step.Settles codec member t then some false
    else if Step.isClaim t then none
    else some true

section
variable {codec : EventCodec} {member : String}

theorem settled_of_claimed {steps : List Step} (h : steps.foldlM (claimed codec member) true = some false) :
    ∃ u ∈ steps.takeWhile (!Step.isClaim ·), Step.Settles codec member u := by
  induction steps with
  | nil => cases h
  | cons t rest ih =>
    rw [List.foldlM_cons, claimed] at h
    by_cases hs : Step.Settles codec member t
    · refine ⟨t, ?_, hs⟩
      rw [List.takeWhile_cons_of_pos (by simp [hs.isClaim])]
      exact List.mem_cons_self
    · rw [if_neg hs] at h
      cases hc : Step.isClaim t with
      | true =>
        rw [hc] at h
        cases h
      | false =>
        rw [hc] at h
        obtain ⟨u, hu, hse⟩ := ih h
        refine ⟨u, ?_, hse⟩
        rw [List.takeWhile_cons_of_pos (by simp [hc])]
        exact List.mem_cons_of_mem _ hu

theorem claimed_at_claim {t : Step} {l l' : Bool} (ht : Step.Claims member t) (h : claimed codec member l t = some l') :
    l' = true := by
  cases l with
  | false => simpa [claimed, ht] using h.symm
  | true =>
    have hse : ¬ Step.Settles codec member t := fun hs => by simpa [ht.isClaim] using hs.isClaim
    rw [claimed, if_neg hse, if_pos ht.isClaim] at h
    cases h

variable {node : TaskCompletionNode}

theorem follows_other {other : String} (ho : other ≠ member) :
    Follows Step.Reliable (claimed codec member) (fun l _ => l = false) (node.processMember other) false := by
  have hi : Issues (fun _ => True) (· ≠ .callbacks (.claim member)) (fun _ => True) (node.processMember other) := by
    refine node.issues_processMember (by simpa using ho) fun e _ => ?_
    exact node.issues_deliverEvent (by simp) (by simp) (by simp) (by simp) (by simp) (by simp)
  refine (Follows.of_issues (fun _ _ => trivial) (fun t _ ht => ?_) hi).mono fun _ _ h => h.1
  have hn : ¬ Step.Claims member t := fun hc => ht hc.1
  simp [claimed, hn]

theorem claimed_of_quiet {t : Step} {l : Bool} (hc : Step.isClaim t = false) (hs : ¬ Step.Settles codec member t) :
    claimed codec member l t = some l := by
  cases l with
  | false =>
    have hn : ¬ Step.Claims member t := fun hcl => by simpa [hc] using hcl.isClaim
    simp [claimed, hn]
  | true => simp [claimed, hs, hc]

theorem claimed_of_settles {t : Step} (h : Step.Settles codec member t) : claimed codec member true t = some false := by
  simp [claimed, h]

section
variable {e : CallbackEvent} (he : node.codec.loads member = .event e)
include he

theorem follows_claimed (hredis : node.hasRedis = true) :
    Follows Step.Reliable (claimed node.codec member) (fun l _ => l = false) (node.deliverEvent member e) true := by
  refine follows_deliverEvent true hredis (fun _ h => h) (fun w _ => ?_) (fun b w _ => ?_) (fun w _ => ?_)
    (fun i w _ => ?_) (fun _ _ score w _ => ?_) (fun _ _ score w _ => ?_) fun w _ => ?_
  · refine claimed_of_settles (.sent fun e' he' => ?_)
    rw [he] at he'
    rw [Loaded.event.inj he']
  · exact claimed_of_quiet rfl fun h => by cases h
  · exact claimed_of_quiet rfl fun h => by cases h
  · exact claimed_of_quiet rfl fun h => by cases h
  · exact claimed_of_settles (.retried he rfl (Nat.lt_succ_self _))
  · exact claimed_of_settles .buried
  · exact claimed_of_quiet rfl fun h => by cases h

theorem follows_own (hredis : node.hasRedis = true) :
    Follows Step.Reliable (claimed node.codec member) (fun l _ => l = false) (node.processMember member) false := by
  refine Follows.bind (Q := fun l r => r = .ok l) (follows_await fun i w hA => ?_) ?_ ?_
  · rw [hA.input_eq (by simp)]
    refine ⟨_, rfl, ?_⟩
    simp [Step.Claims, Fault.answer, Fault.applied]
  · intro l removed hr
    cases hr
    cases l with
    | true =>
      rw [if_pos rfl, he]
      exact (follows_claimed he hredis).bind (fun l _ hl => hl) fun _ _ hl => hl
    | false => rfl
  · intro l err her
    cases her

end

/-- A claimed entry that decodes is settled before the next claim. -/
theorem keeps_of_event {e : CallbackEvent} (he : node.hasRedis = true → node.codec.loads member = .event e) :
    node.Keeps Step.Reliable member := by
  intro batchSize steps q before t after hst hen hr hs hc
  have hfo : Follows Step.Reliable (claimed node.codec member) (fun l _ => l = false)
      (node.processDueCallbacks batchSize) false := by
    refine node.follows_processDueCallbacks (fun i w _ => claimed_of_quiet rfl fun h => by cases h) ?_ batchSize
    intro hredis other
    by_cases ho : other = member
    · subst ho
      exact follows_own (he hredis) hredis
    · exact follows_other ho
  obtain ⟨l, hf, hend⟩ := hfo.steps hst hr
  have hl : l = false := by
    rcases hen with ⟨n, rfl⟩ | ⟨err, rfl⟩
    · exact hend
    · exact hend
  rw [hl, hs, List.foldlM_append] at hf
  obtain ⟨l₁, -, hf⟩ := Option.bind_eq_some_iff.mp hf
  rw [List.foldlM_cons] at hf
  obtain ⟨l₂, hl₂, hf⟩ := Option.bind_eq_some_iff.mp hf
  rw [claimed_at_claim hc hl₂] at hf
  exact settled_of_claimed hf

end

def waiting (member : String) : World := World.empty.exec (.callbackRetry member 0 [])

theorem dueMembers_waiting (member : String) : dueMembers 50 0 (waiting member) = [member] := rfl

theorem zscore_waiting (member : String) : (waiting member).redis.zscore QueueKeys.callbackRetry member = some 0 := by
  simp [waiting, World.exec, World.onRedis, World.runKeys, Redis.zscore_zadd]

section
variable {node : TaskCompletionNode} {member : String} (hredis : node.hasRedis = true)
include hredis

theorem not_keeps_of_end {A : Step → Prop} {i : Fault} (hi : i.applied = true)
    (hr : A ⟨.read, .ok, waiting member⟩) (hc : A ⟨.callbacks (.claim member), i, waiting member⟩) {q : Py Nat}
    (hen : (∃ n, q = .ret n) ∨ ∃ e, q = .raise e)
    (hs : Steps (node.processMembers [member] 0) [⟨.callbacks (.claim member), i, waiting member⟩] q) :
    ¬ node.Keeps A member := by
  have hp : Steps (node.processDueCallbacks 50) [⟨.read, .ok, waiting member⟩, ⟨.read, .ok, waiting member⟩,
      ⟨.callbacks (.claim member), i, waiting member⟩] q := by
    unfold processDueCallbacks
    rw [if_pos hredis]
    refine .cons Fault.ok (waiting member) (.cons Fault.ok (waiting member) ?_)
    change Steps (node.processMembers (dueMembers 50 0 (waiting member)) 0) _ q
    rw [dueMembers_waiting]
    exact hs
  intro hk
  obtain ⟨u, hu, -⟩ := hk 50 _ q [⟨.read, .ok, waiting member⟩, ⟨.read, .ok, waiting member⟩] _ [] hp hen
    (by simp [hr, hc]) rfl ⟨rfl, hi, by rw [zscore_waiting]; rfl⟩
  cases hu

theorem not_keeps_of_not_event (h : ∀ e, node.codec.loads member ≠ .event e) : ¬ node.Keeps Step.Reliable member := by
  have hr : (waiting member).redis.zscore QueueKeys.callbackRetry member = some 0 := zscore_waiting member
  cases hl : node.codec.loads member with
  | event e => exact absurd hl (h e)
  | invalid =>
    refine not_keeps_of_end hredis (i := .ok) rfl (.inl rfl) (.inl rfl) (q := .ret 0) (.inl ⟨0, rfl⟩) ?_
    refine .cons Fault.ok (waiting member) ?_
    simp only [hr, hl]
    exact .refl _
  | scalar typeName =>
    refine not_keeps_of_end hredis (i := .ok) rfl (.inl rfl) (.inl rfl)
      (.inr ⟨.attributeError ("'" ++ typeName ++ "' object has no attribute 'get'"), rfl⟩) ?_
    refine .cons Fault.ok (waiting member) ?_
    simp only [hr, hl]
    exact .refl _

theorem not_keeps_through_failures : ¬ node.Keeps (fun _ => True) member := by
  refine not_keeps_of_end hredis (i := .fail true) rfl trivial trivial (.inr ⟨connectionLost, rfl⟩) ?_
  exact .cons (Fault.fail true) (waiting member) (.refl _)

end

theorem keeps_iff (node : TaskCompletionNode) (member : String) :
    node.Keeps Step.Reliable member ↔ (node.hasRedis = true → ∃ e, node.codec.loads member = .event e) := by
  constructor
  · intro hk hredis
    by_contra hn
    exact not_keeps_of_not_event hredis (not_exists.mp hn) hk
  · intro h
    by_cases hredis : node.hasRedis = true
    · obtain ⟨e, he⟩ := h hredis
      exact keeps_of_event fun _ => he
    · exact keeps_of_event (e := ⟨"", "", "", none, 0, 0⟩) fun hr' => absurd hr' hredis

theorem Enqueues.event {node : TaskCompletionNode} {member : String} (h : node.Enqueues member) :
    ∃ e, node.codec.loads member = .event e := by
  obtain ⟨event, steps, q, score, ops, hs, t, ht, hc⟩ := h
  have hi : Issues (fun _ => True)
      (fun c => ∀ member score ops, c = .callbackRetry member score ops → member = node.codec.dumps event)
      (fun _ => True) (node.enqueueCallbackRetry event) := by
    unfold enqueueCallbackRetry
    split
    · refine (issues_immediately (Q := fun _ => True) (by simp) fun _ _ => trivial).bind fun _ _ => issues_perform ?_
      intro member' score' ops' heq
      cases heq
      rfl
    · trivial
  rw [hs.of_issues hi t ht member score ops hc]
  exact ⟨event, node.codec.loads_dumps event⟩

end TaskCompletionNode

/-- An entry of the completion node is never dropped; one of the reconciler is kept exactly when the id
happens to be the text of an event; and where Redis may fail none is safe. -/
theorem retry_entries_kept_iff (node : TaskCompletionNode) (member : String) :
    (node.Enqueues member → node.Keeps Step.Reliable member) ∧
    (TaskReconciler.Compensates member →
      (node.Keeps Step.Reliable member ↔ (node.hasRedis = true → ∃ e, node.codec.loads member = .event e))) ∧
    (node.hasRedis = true → ¬ node.Keeps (fun _ => True) member) := by
  refine ⟨fun h => ?_, fun _ => node.keeps_iff member, fun hredis => ?_⟩
  · exact (node.keeps_iff member).mpr fun _ => h.event
  · exact TaskCompletionNode.not_keeps_through_failures hredis

def finishedTask : TaskDoc :=
  { taskId := some Uuid.one.text, status := some "completed", callbackUrl := some "http://callback" }

def compensatedWorld : World :=
  ((TaskReconciler.phase3LostCallback [finishedTask]).runWith Command.apply .ok World.empty).2.exec (.advance 20)

theorem compensated_entry_dropped :
    let pass := TaskCompletionNode.plain.processDueCallbacks.runWith Command.apply .ok compensatedWorld
    let steps := TaskCompletionNode.plain.processDueCallbacks.transitions Command.apply .ok compensatedWorld
    compensatedWorld.redis.zscore QueueKeys.callbackRetry Uuid.one.text = some 10 ∧
    pass.1 = .ok 0 ∧ pass.2.redis.zcard QueueKeys.callbackRetry = 0 ∧ pass.2.redis.zcard QueueKeys.callbackDlq = 0 ∧
    steps.map (·.cmd) = [.read, .read, .callbacks (.claim Uuid.one.text)] ∧
    ¬ TaskCompletionNode.plain.Keeps Step.Reliable Uuid.one.text := by
  refine ⟨by decide +kernel, by decide +kernel, by decide +kernel, by decide +kernel, by decide +kernel, ?_⟩
  refine TaskCompletionNode.not_keeps_of_not_event rfl fun e he => ?_
  have hi : EventCodec.quoted.loads Uuid.one.text = .invalid := by decide +kernel
  exact Loaded.noConfusion (hi.symm.trans he)

end AsyncScheduler
