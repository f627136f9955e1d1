import AsyncScheduler.Properties.RetryEntries

/-!
# Conservation of a retry event

An event of the retry set among any number of processors.
-/

namespace AsyncScheduler
open QueueKeys List

def CallbackEvent.withAttempt (e : CallbackEvent) (a : Nat) : CallbackEvent := { e with attempt := a }

def retrySystem (node : TaskCompletionNode) : System Command Fault World PyErr Int ℚ where
  apply := Command.apply
  program batchSize := (node.processDueCallbacks batchSize).void
  ambient := .advance

section
variable (node : TaskCompletionNode) (e : CallbackEvent)

def InRetrySet (w : World) : Prop := ∃ a, node.codec.dumps (e.withAttempt a) ∈ w.redis.zsets callbackRetry

namespace Step

def takes (t : Step) : Bool :=
  match t.cmd with
  | .callbacks (.claim member) =>
    (t.pre.redis.zscore callbackRetry member).isSome && (node.codec.ofTask e.taskId member).isSome
  | _ => false

def sends (t : Step) : Bool := notifies e.taskId t

def delivers (t : Step) : Bool := sends e t && t.input = .ok

def fails (t : Step) : Bool := sends e t && t.input ≠ .ok

def returns (t : Step) : Bool :=
  match t.cmd with
  | .callbackRetry member _ _ => (node.codec.ofTask e.taskId member).isSome
  | _ => false

def buries (t : Step) : Bool :=
  match t.cmd with
  | .callbacks (.deadLetter member _) => (node.codec.ofTask e.taskId member).isSome
  | _ => false

def holding (held : Bool) (t : Step) : Bool :=
  if takes node e t then true
  else if delivers e t || returns node e t || buries node e t then false
  else held

end Step

/-- The processor with these steps has taken the event and has not yet passed it on. -/
def HasEvent (steps : List Step) : Prop := steps.foldl (Step.holding node e) false = true

/-- The event was put in the dead-letter set; it is there unless the set has run out since. -/
def Buried (trace : List Step) (w : World) : Prop :=
  ∃ later t earlier, trace = later ++ t :: earlier ∧ Step.buries node e t = true ∧
    ((∃ a, node.codec.dumps (e.withAttempt a) ∈ w.redis.zsets callbackDlq) ∨
      ∃ u ∈ later, u.cmd.expires u.pre callbackDlq = true)

def TaskCompletionNode.attempts (node : TaskCompletionNode) : Nat := max 1 node.maxDurableAttempts.toNat

inductive Place where
  | queued (a : Nat)
  | held (j a : Nat)
  -- The request has failed
  | refused (j a : Nat)
  | delivered (a : Nat)
  | buried (a : Nat)

/-- What one processor knows of the event. -/
inductive Custody where
  | free
  | claimed (a : Nat)
  | refused (a : Nat)
  deriving DecidableEq

namespace Place

def custody : Place → Nat → Custody
  | .held j a, k => if k = j then .claimed a else .free
  | .refused j a, k => if k = j then .refused a else .free
  | _, _ => .free

def attempt : Place → Nat
  | .queued a | .held _ a | .refused _ a | .delivered a | .buried a => a

def failures : Place → Nat
  | .queued a | .held _ a | .delivered a => a - 1
  | .refused _ a | .buried a => a

def deliveries : Place → Nat
  | .delivered _ => 1
  | _ => 0

end Place

def custodyStep : Custody → Step → Option Custody
  | .free, t =>
    match t.cmd with
    | .read | .keys _ => some .free
    | .post request => if request.idempotencyKey = e.taskId then none else some .free
    | .callbackRetry member _ ops => if ops = [] ∧ node.codec.ofTask e.taskId member = none then some .free else none
    | .callbacks (.claim member) =>
      match node.codec.ofTask e.taskId member with
      | some e' => some (if (t.pre.redis.zscore callbackRetry member).isSome then .claimed e'.attempt else .free)
      | none => some .free
    | .callbacks (.deadLetter member _) => if node.codec.ofTask e.taskId member = none then some .free else none
    | .callbacks (.keepDeadLetters seconds) => if 0 < seconds then some .free else none
    | _ => none
  | .claimed a, t =>
    if t.cmd = .post (e.withAttempt a).request then some (if t.input = .ok then .free else .refused a) else none
  | .refused a, t =>
    match t.cmd with
    | .read => some (.refused a)
    | .callbackRetry member _ ops =>
      if ops = [] ∧ member = node.codec.dumps (e.withAttempt (a + 1)) ∧ (a : Int) < node.maxDurableAttempts then some .free
      else none
    | .callbacks (.deadLetter member _) =>
      if member = node.codec.dumps (e.withAttempt a) ∧ ¬ (a : Int) < node.maxDurableAttempts then some .free else none
    | _ => none

/-- A step that does not move the event. -/
structure Step.Quiet (t : Step) : Prop where
  takes : Step.takes node e t = false
  sends : Step.sends e t = false
  returns : Step.returns node e t = false
  buries : Step.buries node e t = false
  command : t.cmd.sparesRetries = true ∨ (∃ member, t.cmd = .callbacks (.claim member)) ∨
    ∃ member score, t.cmd = .callbackRetry member score []
  keeps : ∀ seconds, t.cmd = .callbacks (.keepDeadLetters seconds) → 0 < seconds

/-- All that a step of a processor can be. -/
inductive Handled (t : Step) : Custody → Custody → Prop
  | quiet {l : Custody} (h : Step.Quiet node e t) : Handled t l l
  | take {member : String} {e' : CallbackEvent} (hcmd : t.cmd = .callbacks (.claim member))
    (hof : node.codec.ofTask e.taskId member = some e') (hin : member ∈ t.pre.redis.zsets callbackRetry) :
    Handled t .free (.claimed e'.attempt)
  | deliver {a : Nat} (hcmd : t.cmd = .post (e.withAttempt a).request) (hok : t.input = .ok) :
    Handled t (.claimed a) .free
  | refuse {a : Nat} (hcmd : t.cmd = .post (e.withAttempt a).request) (hfail : t.input ≠ .ok) :
    Handled t (.claimed a) (.refused a)
  | giveBack {a : Nat} {score : ℚ} (hcmd : t.cmd = .callbackRetry (node.codec.dumps (e.withAttempt (a + 1))) score [])
    (hmore : (a : Int) < node.maxDurableAttempts) : Handled t (.refused a) .free
  | bury {a : Nat} {score : ℚ} (hcmd : t.cmd = .callbacks (.deadLetter (node.codec.dumps (e.withAttempt a)) score))
    (hlast : ¬ (a : Int) < node.maxDurableAttempts) : Handled t (.refused a) .free

end

variable {node : TaskCompletionNode} {e : CallbackEvent} {t : Step} {l l' : Custody}

theorem handled_of_free (h : custodyStep node e .free t = some l') : Handled node e t .free l' := by
  obtain ⟨c, i, w⟩ := t
  cases c with
  | read =>
    cases h
    exact .quiet ⟨rfl, rfl, rfl, rfl, .inl rfl, by simp⟩
  | keys ops =>
    cases h
    exact .quiet ⟨rfl, rfl, rfl, rfl, .inl rfl, by simp⟩
  | post request =>
    simp only [custodyStep] at h
    split at h
    · cases h
    · rename_i hk
      cases h
      exact .quiet ⟨rfl, by simp [Step.sends, Step.notifies, hk], rfl, rfl, .inl rfl, by simp⟩
  | callbackRetry member score ops =>
    simp only [custodyStep] at h
    split at h
    · rename_i ho
      obtain ⟨rfl, hn⟩ := ho
      cases h
      exact .quiet ⟨rfl, rfl, by simp [Step.returns, hn], rfl, .inr (.inr ⟨member, score, rfl⟩), by simp⟩
    · cases h
  | callbacks op =>
    cases op with
    | claim member =>
      simp only [custodyStep] at h
      cases hof : node.codec.ofTask e.taskId member with
      | none =>
        rw [hof] at h
        cases h
        exact .quiet ⟨by simp [Step.takes, hof], rfl, rfl, rfl, .inr (.inl ⟨member, rfl⟩), by simp⟩
      | some e' =>
        rw [hof] at h
        cases h
        split
        · rename_i hin
          exact .take rfl hof (zscore_isSome_iff.mp hin)
        · rename_i hou
          refine .quiet ⟨?_, rfl, rfl, rfl, .inr (.inl ⟨member, rfl⟩), by simp⟩
          simpa [Step.takes, hof] using hou
    | deadLetter member score =>
      simp only [custodyStep] at h
      split at h
      · rename_i hn
        cases h
        exact .quiet ⟨rfl, rfl, rfl, by simp [Step.buries, hn], .inl rfl, by simp⟩
      · cases h
    | keepDeadLetters seconds =>
      simp only [custodyStep] at h
      split at h
      · rename_i hpos
        cases h
        exact .quiet ⟨rfl, rfl, rfl, rfl, .inl rfl, fun s hs => by cases hs; exact hpos⟩
      · cases h
  | queue op | breaker op | commit writes | memory op | mark m | advance now => cases h

theorem handled_of_custodyStep (h : custodyStep node e l t = some l') : Handled node e t l l' := by
  cases l with
  | free => exact handled_of_free h
  | claimed a =>
    simp only [custodyStep] at h
    split at h
    · rename_i hc
      cases h
      split
      · exact .deliver hc ‹_›
      · exact .refuse hc ‹_›
    · cases h
  | refused a =>
    obtain ⟨c, i, w⟩ := t
    simp only [custodyStep] at h
    split at h
    · cases h
      exact .quiet ⟨rfl, rfl, rfl, rfl, .inl rfl, by simp⟩
    · split at h
      · rename_i hn
        obtain ⟨rfl, rfl, hm⟩ := hn
        cases h
        exact .giveBack rfl hm
      · cases h
    · split at h
      · rename_i hn
        obtain ⟨rfl, hl⟩ := hn
        cases h
        exact .bury rfl hl
      · cases h
    · cases h

/-- The event is at a place: what the processors know, what is in the retry set, and what was done. -/
structure Tracks (node : TaskCompletionNode) (e : CallbackEvent) (place : Place) (st : Nat → Custody) (tr : List Step)
    (w : World) : Prop where
  custody : st = place.custody
  begun : 1 ≤ place.attempt
  bounded : place.attempt ≤ node.attempts
  waits : ∀ member, w.Waits node.codec e.taskId member ↔
    ∃ a, place = .queued a ∧ member = node.codec.dumps (e.withAttempt a)
  keeps : w.KeepsRetries
  failures : tr.countP (Step.fails e) = place.failures
  deliveries : tr.countP (Step.delivers e) = place.deliveries
  alive : (∀ a, place ≠ .buried a) → ∀ t ∈ tr, Step.buries node e t = false
  dead : ∀ a, place = .buried a → a = node.attempts ∧ Buried node e tr w

variable {place : Place} {st : Nat → Custody} {tr : List Step} {w : World}

section
variable {t : Step} {j a : Nat}

theorem waits_of_quiet (h : Step.Quiet node e t) (hw : t.pre.KeepsRetries) (member : String) :
    (t.pre.exec t.cmd).Waits node.codec e.taskId member ↔ t.pre.Waits node.codec e.taskId member := by
  rcases h.command with hs | ⟨member', hc⟩ | ⟨member', score, hc⟩
  · exact waits_of_spares hs hw member
  · have ht := h.takes
    simp only [Step.takes, hc] at ht
    rw [hc, waits_claim]
    refine ⟨And.left, fun hwa => ⟨hwa, ?_⟩⟩
    rintro rfl
    simp [zscore_isSome_iff.mpr hwa.1, hwa.2] at ht
  · have hr := h.returns
    simp only [Step.returns, hc] at hr
    rw [hc, waits_retry, hr]
    simp

theorem keepsRetries_of_quiet (h : Step.Quiet node e t) (hw : t.pre.KeepsRetries) :
    (t.pre.exec t.cmd).KeepsRetries := by
  rcases h.command with hs | ⟨member', hc⟩ | ⟨member', score, hc⟩
  · exact (retrySet_exec hs hw).2
  · rw [hc]
    exact keepsRetries_claim member' hw
  · rw [hc]
    exact keepsRetries_retry member' score hw

theorem Step.Quiet.deadLetter (h : Step.Quiet node e t) {member : String}
    (hin : member ∈ t.pre.redis.zsets callbackDlq) :
    member ∈ (t.pre.exec t.cmd).redis.zsets callbackDlq ∨ t.cmd.expires t.pre callbackDlq = true := by
  refine deadLetter_exec (fun op hop => ?_) (fun op hop => ?_) h.keeps hin
  · simpa [hop, Command.sparesRetries] using h.command
  · simpa [hop, Command.sparesRetries] using h.command

theorem Buried.quiet (h : Step.Quiet node e t) (hb : Buried node e tr t.pre) :
    Buried node e (t :: tr) (t.pre.exec t.cmd) := by
  obtain ⟨later, u, earlier, rfl, hu, hw⟩ := hb
  refine ⟨t :: later, u, earlier, rfl, hu, ?_⟩
  rcases hw with ⟨a, hin⟩ | ⟨v, hv, he⟩
  · rcases h.deadLetter hin with hs | he
    · exact .inl ⟨a, hs⟩
    · exact .inr ⟨t, mem_cons_self, he⟩
  · exact .inr ⟨v, mem_cons_of_mem _ hv, he⟩

theorem countP_of_not_sends (h : Step.sends e t = false) (tr : List Step) :
    (t :: tr).countP (Step.fails e) = tr.countP (Step.fails e) ∧
      (t :: tr).countP (Step.delivers e) = tr.countP (Step.delivers e) :=
  ⟨countP_cons_of_neg (by simp [Step.fails, h]), countP_cons_of_neg (by simp [Step.delivers, h])⟩

theorem Tracks.alive_cons (h : Tracks node e place st tr t.pre) (hp : ∀ a, place ≠ .buried a)
    (ht : Step.buries node e t = false) : ∀ u ∈ t :: tr, Step.buries node e u = false :=
  forall_mem_cons.mpr ⟨ht, h.alive hp⟩

theorem Tracks.quiet (h : Tracks node e place st tr t.pre) (hq : Step.Quiet node e t) :
    Tracks node e place st (t :: tr) (t.pre.exec t.cmd) where
  custody := h.custody
  begun := h.begun
  bounded := h.bounded
  waits member := (waits_of_quiet hq h.keeps member).trans (h.waits member)
  keeps := keepsRetries_of_quiet hq h.keeps
  failures := (countP_of_not_sends hq.sends tr).1.trans h.failures
  deliveries := (countP_of_not_sends hq.sends tr).2.trans h.deliveries
  alive hp := h.alive_cons hp hq.buries
  dead a ha := ⟨(h.dead a ha).1, (h.dead a ha).2.quiet hq⟩

theorem Place.custody_cases (h : place.custody j ≠ .free) : (∃ a, place = .held j a) ∨ ∃ a, place = .refused j a := by
  cases place with
  | held k a =>
    by_cases hk : j = k
    · exact .inl ⟨a, by rw [hk]⟩
    · exact absurd (if_neg hk) h
  | refused k a =>
    by_cases hk : j = k
    · exact .inr ⟨a, by rw [hk]⟩
    · exact absurd (if_neg hk) h
  | queued a | delivered a | buried a => exact absurd rfl h

theorem Place.custodian_unique {k : Nat} (hj : place.custody j ≠ .free) (hk : place.custody k ≠ .free) : j = k := by
  rcases custody_cases hj with ⟨a, rfl⟩ | ⟨a, rfl⟩
  · by_contra hne
    exact hk (if_neg (Ne.symm hne))
  · by_contra hne
    exact hk (if_neg (Ne.symm hne))

theorem Place.eq_held (h : place.custody j = .claimed a) : place = .held j a := by
  rcases custody_cases (j := j) (by rw [h]; simp) with ⟨b, rfl⟩ | ⟨b, rfl⟩
  · simpa [custody] using h
  · simp [custody] at h

theorem Place.eq_refused (h : place.custody j = .refused a) : place = .refused j a := by
  rcases custody_cases (j := j) (by rw [h]; simp) with ⟨b, rfl⟩ | ⟨b, rfl⟩
  · simp [custody] at h
  · simpa [custody] using h

theorem Place.update_custody (hj : place.custody j ≠ .free) (l : Custody) :
    Function.update place.custody j l = fun k => if k = j then l else .free := by
  funext k
  by_cases hk : k = j
  · subst hk
    simp
  · rw [Function.update_of_ne hk, if_neg hk]
    by_contra hne
    exact hk (custodian_unique hne hj)

section
variable {a : Nat} {score : ℚ}

theorem Tracks.take {member : String} {e' : CallbackEvent} (h : Tracks node e place st tr t.pre)
    (hc : t.cmd = .callbacks (.claim member)) (hof : node.codec.ofTask e.taskId member = some e')
    (hin : member ∈ t.pre.redis.zsets callbackRetry) :
    Tracks node e (.held j e'.attempt) (Function.update st j (.claimed e'.attempt)) (t :: tr) (t.pre.exec t.cmd) := by
  obtain ⟨a, rfl, rfl⟩ := (h.waits member).mp ⟨hin, by rw [hof]; rfl⟩
  have he' : e' = e.withAttempt a := by
    have hs := node.codec.ofTask_dumps (e.withAttempt a)
    exact Option.some.inj (hof.symm.trans hs)
  subst he'
  have hn := countP_of_not_sends (e := e) (t := t) (by simp [Step.sends, Step.notifies, hc]) tr
  refine ⟨?_, h.begun, h.bounded, fun member => ?_, ?_, ?_, ?_, ?_, ?_⟩
  · rw [h.custody]
    funext k
    by_cases hk : k = j
    · subst hk
      simp [Place.custody]
    · simp [Place.custody, hk]
  · rw [hc, waits_claim, h.waits member]
    simp
  · rw [hc]
    exact keepsRetries_claim _ h.keeps
  · exact hn.1.trans h.failures
  · exact hn.2.trans h.deliveries
  · exact fun _ => h.alive_cons (by simp) (by simp [Step.buries, hc])
  · simp

theorem sends_request (a : Nat) (hc : t.cmd = .post (e.withAttempt a).request) : Step.sends e t = true := by
  simp [Step.sends, Step.notifies, hc, CallbackEvent.request, CallbackEvent.withAttempt]

theorem exec_request (hc : t.cmd = .post (e.withAttempt a).request) : t.pre.exec t.cmd = t.pre := by
  rw [hc]
  rfl

theorem Tracks.deliver (h : Tracks node e (.held j a) st tr t.pre)
    (hc : t.cmd = .post (e.withAttempt a).request) (hok : t.input = .ok) :
    Tracks node e (.delivered a) (Function.update st j .free) (t :: tr) (t.pre.exec t.cmd) := by
  have hs := sends_request a hc
  rw [exec_request hc]
  refine ⟨?_, h.begun, h.bounded, fun member => ?_, h.keeps, ?_, ?_, ?_, ?_⟩
  · rw [h.custody, Place.update_custody (by simp [Place.custody])]
    funext k
    split <;> rfl
  · rw [h.waits member]
    simp
  · rw [countP_cons_of_neg (by simp [Step.fails, hok])]
    exact h.failures
  · rw [countP_cons_of_pos (by simp [Step.delivers, hs, hok]), h.deliveries]
    rfl
  · exact fun _ => h.alive_cons (by simp) (by simp [Step.buries, hc])
  · simp

theorem Tracks.refuse (h : Tracks node e (.held j a) st tr t.pre)
    (hc : t.cmd = .post (e.withAttempt a).request) (hf : t.input ≠ .ok) :
    Tracks node e (.refused j a) (Function.update st j (.refused a)) (t :: tr) (t.pre.exec t.cmd) := by
  have hs := sends_request a hc
  have hb : 1 ≤ a := h.begun
  rw [exec_request hc]
  refine ⟨?_, h.begun, h.bounded, fun member => ?_, h.keeps, ?_, ?_, ?_, ?_⟩
  · rw [h.custody, Place.update_custody (by simp [Place.custody])]
    rfl
  · rw [h.waits member]
    simp
  · rw [countP_cons_of_pos (by simp [Step.fails, hs, hf]), h.failures]
    simp only [Place.failures]
    omega
  · rw [countP_cons_of_neg (by simp [Step.delivers, hf])]
    exact h.deliveries
  · exact fun _ => h.alive_cons (by simp) (by simp [Step.buries, hc])
  · simp

theorem Tracks.giveBack (h : Tracks node e (.refused j a) st tr t.pre)
    (hc : t.cmd = .callbackRetry (node.codec.dumps (e.withAttempt (a + 1))) score [])
    (hm : (a : Int) < node.maxDurableAttempts) :
    Tracks node e (.queued (a + 1)) (Function.update st j .free) (t :: tr) (t.pre.exec t.cmd) := by
  have hof := node.codec.ofTask_dumps (e.withAttempt (a + 1))
  have hn := countP_of_not_sends (e := e) (t := t) (by simp [Step.sends, Step.notifies, hc]) tr
  refine ⟨?_, Nat.succ_pos a, ?_, fun member => ?_, ?_, ?_, ?_, ?_, ?_⟩
  · rw [h.custody, Place.update_custody (by simp [Place.custody])]
    funext k
    split <;> rfl
  · simp only [Place.attempt, TaskCompletionNode.attempts]
    omega
  · rw [hc, waits_retry, h.waits member]
    change _ ∨ _ ∧ (node.codec.ofTask (e.withAttempt (a + 1)).taskId _).isSome = true ↔ _
    rw [hof]
    simp
  · rw [hc]
    exact keepsRetries_retry _ _ h.keeps
  · exact hn.1.trans h.failures
  · exact hn.2.trans h.deliveries
  · exact fun _ => h.alive_cons (by simp) (by simp [Step.buries, hc])
  · simp

theorem Tracks.bury (h : Tracks node e (.refused j a) st tr t.pre)
    (hc : t.cmd = .callbacks (.deadLetter (node.codec.dumps (e.withAttempt a)) score))
    (hl : ¬ (a : Int) < node.maxDurableAttempts) :
    Tracks node e (.buried a) (Function.update st j .free) (t :: tr) (t.pre.exec t.cmd) := by
  have hof := node.codec.ofTask_dumps (e.withAttempt a)
  have hn := countP_of_not_sends (e := e) (t := t) (by simp [Step.sends, Step.notifies, hc]) tr
  have hs : t.cmd.sparesRetries = true := by
    rw [hc]
    rfl
  refine ⟨?_, h.begun, h.bounded, fun member => ?_, (retrySet_exec hs h.keeps).2, ?_, ?_, ?_, ?_⟩
  · rw [h.custody, Place.update_custody (by simp [Place.custody])]
    funext k
    split <;> rfl
  · rw [waits_of_spares hs h.keeps, h.waits member]
    simp
  · exact hn.1.trans h.failures
  · exact hn.2.trans h.deliveries
  · intro hp
    exact absurd rfl (hp a)
  · rintro b hb
    cases hb
    have hbe : 1 ≤ a := h.begun
    have hbo : a ≤ node.attempts := h.bounded
    refine ⟨?_, [], t, tr, rfl, ?_, .inl ⟨a, ?_⟩⟩
    · simp only [TaskCompletionNode.attempts] at hbo ⊢
      omega
    · simp only [Step.buries, hc]
      exact congrArg Option.isSome hof
    · rw [hc]
      change _ ∈ (t.pre.redis.zadd callbackDlq score _).zsets callbackDlq
      rw [Redis.zsets_zadd, if_pos rfl, SortedSet.mem_add]
      exact .inl rfl

/-- After every step of the protocol the event is in one place. -/
theorem Tracks.step {l l' : Custody} (h : Tracks node e place st tr t.pre) (hl : st j = l) (hs : Handled node e t l l') :
    ∃ place', Tracks node e place' (Function.update st j l') (t :: tr) (t.pre.exec t.cmd) := by
  have hc : place.custody j = l := by rw [← hl, h.custody]
  cases hs with
  | quiet hq =>
    refine ⟨place, ?_⟩
    rw [← hl, Function.update_eq_self]
    exact h.quiet hq
  | take hcm hof hin => exact ⟨_, h.take hcm hof hin⟩
  | deliver hcm hok =>
    rw [Place.eq_held hc] at h
    exact ⟨_, h.deliver hcm hok⟩
  | refuse hcm hf =>
    rw [Place.eq_held hc] at h
    exact ⟨_, h.refuse hcm hf⟩
  | giveBack hcm hm =>
    rw [Place.eq_refused hc] at h
    exact ⟨_, h.giveBack hcm hm⟩
  | bury hcm hla =>
    rw [Place.eq_refused hc] at h
    exact ⟨_, h.bury hcm hla⟩

end

end

variable {member : String}

/-- Reliable steps, in a state where the entries of the task are those of the event. -/
def Step.Known (node : TaskCompletionNode) (e : CallbackEvent) (t : Step) : Prop :=
  Step.Reliable t ∧ ∀ member, t.pre.Waits node.codec e.taskId member → ∃ a, member = node.codec.dumps (e.withAttempt a)

theorem follows_stranger (ho : node.codec.ofTask e.taskId member = none) :
    Follows (Step.Known node e) (custodyStep node e) (fun l _ => l = .free) (node.processMember member) .free := by
  have hi : Issues (fun _ => True) (fun c => ∀ i w, custodyStep node e .free ⟨c, i, w⟩ = some .free) (fun _ => True)
      (node.processMember member) := by
    refine node.issues_processMember (fun i w => by simp [custodyStep, ho]) fun e' he' => ?_
    have hta : e'.taskId ≠ e.taskId := fun hsa => by
      have hs := EventCodec.ofTask_eq_some.mpr ⟨he', hsa⟩
      rw [ho] at hs
      cases hs
    refine node.issues_deliverEvent (fun i w => rfl) (fun i w => by simp [custodyStep, hta]) (fun i w => rfl)
      (fun score i w => ?_) (fun score i w => by simp [custodyStep, ho]) fun i w => by simp [custodyStep]
    simp [custodyStep, EventCodec.ofTask, node.codec.loads_dumps, hta]
  exact (Follows.of_issues (fun _ _ => trivial) (fun t _ ht => ht t.input t.pre) hi).mono fun _ _ h => h.1

theorem follows_delivery (hr : node.hasRedis = true) (a : Nat) :
    Follows (Step.Known node e) (custodyStep node e) (fun l _ => l = .free)
      (node.deliverEvent (node.codec.dumps (e.withAttempt a)) (e.withAttempt a)) (.claimed a) := by
  refine TaskCompletionNode.follows_deliverEvent (.refused a) hr (fun _ h => h.1) (fun w _ => ?_)
    (fun applied w _ => ?_) (fun w _ => rfl) (fun i w _ => rfl) (fun _ hm score w _ => ?_) (fun _ hl score w _ => ?_)
    fun w _ => ?_
  · simp [custodyStep]
  · simp [custodyStep]
  · exact if_pos ⟨rfl, rfl, hm⟩
  · exact if_pos ⟨rfl, hl⟩
  · simp [custodyStep]

/-- The processing of an entry takes the event over and gives it up at its end. -/
theorem follows_event {e' : CallbackEvent} (hre : node.hasRedis = true)
    (hof : node.codec.ofTask e.taskId member = some e') :
    Follows (Step.Known node e) (custodyStep node e) (fun l _ => l = .free) (node.processMember member) .free := by
  have hlo := (EventCodec.ofTask_eq_some.mp hof).1
  refine Follows.bind (Q := fun l r => (r = .ok true ∧ l = .claimed e'.attempt ∧ ∃ a, member = node.codec.dumps (e.withAttempt a)) ∨
    (r = .ok false ∧ l = .free)) (follows_await fun i w hk => ?_) ?_ ?_
  · obtain rfl := hk.1.input_eq (by simp)
    refine ⟨if (w.redis.zscore callbackRetry member).isSome then .claimed e'.attempt else .free,
      by simp only [custodyStep, hof], ?_⟩
    cases hin : (w.redis.zscore callbackRetry member).isSome with
    | true =>
      refine .inl ⟨by simp [Fault.answer], if_pos rfl, hk.2 member ⟨zscore_isSome_iff.mp hin, ?_⟩⟩
      rw [hof]
      rfl
    | false => exact .inr ⟨by simp [Fault.answer], if_neg (by simp)⟩
  · rintro l removed (⟨hr, rfl, a, rfl⟩ | ⟨hr, rfl⟩)
    · cases hr
      rw [node.codec.loads_dumps] at hlo
      obtain rfl := Loaded.event.inj hlo
      rw [if_pos rfl, node.codec.loads_dumps]
      exact (follows_delivery hre a).bind (fun _ _ hl => hl) fun _ _ hl => hl
    · cases hr
      rfl
  · rintro l err (⟨he, -⟩ | ⟨he, -⟩) <;> cases he

theorem follows_pass (batchSize : Int) : Follows (Step.Known node e) (custodyStep node e) (fun l _ => l = .free)
      ((retrySystem node).program batchSize) .free := by
  have hp : Follows (Step.Known node e) (custodyStep node e) (fun l _ => l = .free)
      (node.processDueCallbacks batchSize) .free := by
    refine node.follows_processDueCallbacks (fun i w _ => rfl) (fun hr member => ?_) batchSize
    cases hof : node.codec.ofTask e.taskId member with
    | none => exact follows_stranger hof
    | some e' => exact follows_event hr hof
  exact hp.bind (fun _ _ hl => hl) fun _ _ hl => hl

section
variable {w : World} {tr : List Step} {place : Place} {st : Nat → Custody} {l l' : Custody}

theorem holding_of_handled {t : Step} (h : Handled node e t l l') :
    Step.holding node e (decide (l ≠ .free)) t = decide (l' ≠ .free) := by
  cases h with
  | quiet hq => simp [Step.holding, Step.delivers, hq.takes, hq.sends, hq.returns, hq.buries]
  | take hc hof hin =>
    have ht : Step.takes node e t = true := by simp [Step.takes, hc, hof, zscore_isSome_iff.mpr hin]
    simp [Step.holding, ht]
  | deliver hc hok =>
    have ht : Step.takes node e t = false := by simp [Step.takes, hc]
    simp [Step.holding, Step.delivers, ht, sends_request _ hc, hok]
  | refuse hc hf => simp [Step.holding, Step.takes, Step.delivers, Step.returns, Step.buries, hc, hf]
  | @giveBack a score hc hm =>
    have hr : Step.returns node e t = true := by
      simp only [Step.returns, hc]
      exact congrArg Option.isSome (node.codec.ofTask_dumps (e.withAttempt (a + 1)))
    simp [Step.holding, Step.takes, hr, hc]
  | @bury a score hc hl =>
    have hb : Step.buries node e t = true := by
      simp only [Step.buries, hc]
      exact congrArg Option.isSome (node.codec.ofTask_dumps (e.withAttempt a))
    simp [Step.holding, Step.takes, hb, hc]

theorem holding_of_fold {steps : List Step} (h : steps.foldlM (custodyStep node e) l = some l') :
    steps.foldl (Step.holding node e) (decide (l ≠ .free)) = decide (l' ≠ .free) := by
  induction steps generalizing l with
  | nil =>
    cases h
    rfl
  | cons t rest ih =>
    rw [foldlM_cons] at h
    obtain ⟨l₁, hl₁, hr⟩ := Option.bind_eq_some_iff.mp h
    rw [foldl_cons, holding_of_handled (handled_of_custodyStep hl₁)]
    exact ih hr

theorem countP_sends (e : CallbackEvent) (tr : List Step) :
    tr.countP (Step.sends e) = tr.countP (Step.fails e) + tr.countP (Step.delivers e) := by
  induction tr with
  | nil => rfl
  | cons t tr ih =>
    rw [countP_cons, countP_cons, countP_cons, ih]
    cases hs : Step.sends e t with
    | false => simp [Step.fails, Step.delivers, hs]
    | true =>
      by_cases hok : t.input = .ok
      · simp [Step.fails, Step.delivers, hs, hok]
        omega
      · simp [Step.fails, Step.delivers, hs, hok]
        omega

/-- The event is in the retry set with its first attempt, alone of its task, and the set has no deadline. -/
structure Enqueued (node : TaskCompletionNode) (e : CallbackEvent) (w : World) : Prop where
  attempt : e.attempt = 1
  inside : node.codec.dumps e ∈ w.redis.zsets callbackRetry
  distinct : ∀ member, w.Waits node.codec e.taskId member → member = node.codec.dumps e
  keeps : w.KeepsRetries

theorem Enqueued.tracks (h : Enqueued node e w) : Tracks node e (.queued 1) (fun _ => .free) [] w := by
  have hf : e.withAttempt 1 = e := by
    rw [← h.attempt]
    rfl
  refine ⟨rfl, Nat.le_refl 1, Nat.le_max_left .., fun member => ?_, h.keeps, rfl, rfl, by simp, by simp⟩
  constructor
  · intro hw
    exact ⟨1, rfl, hf.symm ▸ h.distinct member hw⟩
  · rintro ⟨a, ha, rfl⟩
    cases ha
    rw [hf]
    exact ⟨h.inside, congrArg Option.isSome (node.codec.ofTask_dumps e)⟩

/-- At every moment the event is in one place, and each processor knows whether it is with it. -/
theorem Enqueued.run (h : Enqueued node e w) (ms : List (Move Int ℚ Fault))
    (hr : ∀ t ∈ ((retrySystem node).run (Sys.init w) ms).trace, Step.Reliable t) :
    let z := (retrySystem node).run (Sys.init w) ms
    ∃ place, Tracks node e place place.custody z.trace z.world ∧
      ∀ j, HasEvent node e ((retrySystem node).stepsOf j (Sys.init w) ms) ↔ place.custody j ≠ .free := by
  let G : (Nat → Custody) → List Step → World → Prop := fun st tr w => ∃ place, Tracks node e place st tr w
  have hk : ∀ st tr w c i, G st tr w → Step.Reliable ⟨c, i, w⟩ → Step.Known node e ⟨c, i, w⟩ := by
    rintro st tr w' c i ⟨place, hp⟩ hr'
    refine ⟨hr', fun member hw => ?_⟩
    obtain ⟨a, -, hm⟩ := (hp.waits member).mp hw
    exact ⟨a, hm⟩
  have hst : ∀ st tr w j c i l, G st tr w → Step.Known node e ⟨c, i, w⟩ →
      custodyStep node e (st j) ⟨c, i, w⟩ = some l →
      G (Function.update st j l) (⟨c, i, w⟩ :: tr) ((retrySystem node).apply c i w) := by
    rintro st tr w' j c i l ⟨place, hp⟩ hk hl
    have ha : (retrySystem node).apply c i w' = w'.exec c := hk.1.apply_eq
    rw [ha]
    exact Tracks.step (t := ⟨c, i, w'⟩) hp rfl (handled_of_custodyStep hl)
  have hpa : ∀ st tr w now i, G st tr w → Step.Reliable ⟨.advance now, i, w⟩ →
      G st (⟨.advance now, i, w⟩ :: tr) ((retrySystem node).apply (.advance now) i w) := by
    rintro st tr w' now i ⟨place, hp⟩ hr'
    have ha : (retrySystem node).apply (.advance now) i w' = w'.exec (.advance now) := hr'.apply_eq
    rw [ha]
    exact ⟨place, Tracks.quiet (t := ⟨.advance now, i, w'⟩) hp ⟨rfl, rfl, rfl, rfl, .inl rfl, by simp⟩⟩
  have hs : System.Conforms (Step.Known node e) (custodyStep node e) (fun l _ => l = .free) G .free (fun _ => .free)
      (Sys.init w : Sys Command Fault World PyErr) := ⟨⟨_, h.tracks⟩, by simp [Sys.init], fun _ _ => rfl⟩
  obtain ⟨st, he, hste⟩ := hs.run hk hst hpa ms (fun batchSize _ => follows_pass batchSize) hr
  obtain ⟨place, hp⟩ := he.holds
  obtain rfl := hp.custody
  refine ⟨place, hp, fun j => ?_⟩
  have hh := holding_of_fold (hste j)
  simp only [ne_eq, not_true_eq_false, decide_false] at hh
  rw [HasEvent, hh, decide_eq_true_iff]

theorem Tracks.inRetrySet_iff (h : Tracks node e place st tr w) : InRetrySet node e w ↔ ∃ a, place = .queued a := by
  constructor
  · rintro ⟨a, hin⟩
    obtain ⟨b, hb, -⟩ := (h.waits _).mp ⟨hin, congrArg Option.isSome (node.codec.ofTask_dumps (e.withAttempt a))⟩
    exact ⟨b, hb⟩
  · rintro ⟨a, ha⟩
    exact ⟨a, ((h.waits _).mpr ⟨a, ha, rfl⟩).1⟩

theorem Tracks.delivered_iff
    (h : Tracks node e place st tr w) : (∃ t ∈ tr, Step.delivers e t = true) ↔ ∃ a, place = .delivered a := by
  rw [← countP_pos_iff, h.deliveries]
  cases place <;> simp [Place.deliveries]

theorem Tracks.buried_iff (h : Tracks node e place st tr w) : Buried node e tr w ↔ ∃ a, place = .buried a := by
  constructor
  · rintro ⟨later, t, earlier, rfl, hb, -⟩
    by_contra hn
    have hal := h.alive (not_exists.mp hn) t (by simp)
    rw [hal] at hb
    cases hb
  · rintro ⟨a, ha⟩
    exact (h.dead a ha).2

end

def OneOf (a b c d : Prop) : Prop :=
  (a ∧ ¬b ∧ ¬c ∧ ¬d) ∨ (¬a ∧ b ∧ ¬c ∧ ¬d) ∨ (¬a ∧ ¬b ∧ c ∧ ¬d) ∨ (¬a ∧ ¬b ∧ ¬c ∧ d)

/-- Among any number of processors, and at every moment, an event is in the retry set, with one of them,
delivered, or among the dead letters. It is sent at most so many times, and it gets to the dead
letters exactly when all of these have failed. -/
theorem retry_event_conserved (node : TaskCompletionNode) (e : CallbackEvent) (w : World) (hw : Enqueued node e w)
    (ms : List (Move Int ℚ Fault))
    (hreliable : ∀ t ∈ ((retrySystem node).run (Sys.init w) ms).trace, Step.Reliable t) :
    let z := (retrySystem node).run (Sys.init w) ms
    let held := fun j => HasEvent node e ((retrySystem node).stepsOf j (Sys.init w) ms)
    OneOf (InRetrySet node e z.world) (∃ j, held j) (∃ t ∈ z.trace, Step.delivers e t = true)
      (Buried node e z.trace z.world) ∧
    (∀ j k, held j → held k → j = k) ∧
    z.trace.countP (Step.sends e) ≤ node.attempts ∧
    (Buried node e z.trace z.world ↔ z.trace.countP (Step.fails e) = node.attempts ∧ ¬ ∃ j, held j) := by
  intro z held
  obtain ⟨place, hp, hh⟩ := hw.run ms hreliable
  have hb := hp.begun
  have hbo := hp.bounded
  have hs : (∃ j, held j) ↔ ∃ j, place.custody j ≠ .free := exists_congr hh
  rw [hp.inRetrySet_iff, hs, hp.delivered_iff, hp.buried_iff, countP_sends, hp.failures,
    hp.deliveries]
  refine ⟨?_, fun j k hj hk => ?_, ?_, ?_⟩
  · cases place <;> simp [OneOf, Place.custody]
  · exact Place.custodian_unique ((hh j).mp hj) ((hh k).mp hk)
  · cases place <;> simp only [Place.attempt, Place.failures, Place.deliveries] at hb hbo ⊢ <;> omega
  · cases place with
    | buried a =>
      have ha : a = node.attempts := (hp.dead a rfl).1
      simp [Place.failures, Place.custody, ha]
    | queued a =>
      simp only [Place.attempt, Place.failures, Place.custody] at hb hbo ⊢
      have hl : a - 1 ≠ node.attempts := by omega
      simp [hl]
    | delivered a =>
      simp only [Place.attempt, Place.failures, Place.custody] at hb hbo ⊢
      have hl : a - 1 ≠ node.attempts := by omega
      simp [hl]
    | held i a | refused i a => simp [Place.custody]

def sampleEvent : CallbackEvent := ⟨"task-1", "http://callback", "completed", none, 0, 1⟩

def failedPass : List (Move Int ℚ Fault) :=
  [.start 50, .step 0 .ok, .step 0 .ok, .step 0 .ok, .step 0 (.fail false), .step 0 .ok, .step 0 .ok, .step 0 .ok]

theorem enqueued_waiting (node : TaskCompletionNode) {e : CallbackEvent} (he : e.attempt = 1) :
    Enqueued node e (TaskCompletionNode.waiting (node.codec.dumps e)) := by
  have hset : (TaskCompletionNode.waiting (node.codec.dumps e)).redis.zsets callbackRetry =
      (∅ : ZSet).add (node.codec.dumps e) 0 := (Redis.zsets_zadd ..).trans (if_pos rfl)
  refine ⟨he, ?_, fun member hw => ?_, zexpire_putZset_of_none _ rfl⟩
  · rw [hset, SortedSet.mem_add]
    exact .inl rfl
  · have hin := hw.1
    rw [hset, SortedSet.mem_add] at hin
    exact hin.resolve_right (SortedSet.mem_empty _)

/-- Two passes: the request of the first fails, and the second finds nothing due. -/
theorem retry_event_conserved_oneFailure :
    let node := TaskCompletionNode.plain
    let start : Sys Command Fault World PyErr := Sys.init (TaskCompletionNode.waiting (node.codec.dumps sampleEvent))
    let ms := failedPass ++ [.start 50, .step 1 .ok, .step 1 .ok]
    let z := (retrySystem node).run start ms
    Enqueued node sampleEvent start.world ∧ (∀ t ∈ z.trace, Step.Reliable t) ∧
    z.trace.countP (Step.fails sampleEvent) = 1 ∧
    z.trace.countP (Step.sends sampleEvent) ≤ node.attempts ∧
    OneOf (InRetrySet node sampleEvent z.world) (∃ j, HasEvent node sampleEvent ((retrySystem node).stepsOf j start ms))
      (∃ t ∈ z.trace, Step.delivers sampleEvent t = true) (Buried node sampleEvent z.trace z.world) := by
  intro node start ms z
  have hw : Enqueued node sampleEvent start.world := enqueued_waiting node rfl
  have hr : ∀ t ∈ z.trace, Step.Reliable t := by decide +kernel
  obtain ⟨ho, -, hs, -⟩ := retry_event_conserved node sampleEvent start.world hw ms hr
  exact ⟨hw, hr, by decide +kernel, hs, ho⟩

/-- With no attempts allowed the event is sent all the same, and after thirty days nothing is left of it. -/
theorem retry_event_lost :
    let node : TaskCompletionNode := { TaskCompletionNode.plain with maxDurableAttempts := 0 }
    let start : Sys Command Fault World PyErr := Sys.init (TaskCompletionNode.waiting (node.codec.dumps sampleEvent))
    let ms := failedPass ++ [.env 2592001 .ok]
    let z := (retrySystem node).run start ms
    Enqueued node sampleEvent start.world ∧ (∀ t ∈ z.trace, Step.Reliable t) ∧
    z.trace.countP (Step.sends sampleEvent) = 1 ∧
    z.world.redis.zcard callbackRetry = 0 ∧ z.world.redis.zcard callbackDlq = 0 ∧
    z.procs.length = 1 ∧ ¬ HasEvent node sampleEvent ((retrySystem node).stepsOf 0 start ms) ∧
    z.trace.countP (Step.delivers sampleEvent) = 0 := by
  intro node start ms z
  refine ⟨enqueued_waiting node rfl, by decide +kernel, by decide +kernel, by decide +kernel, by decide +kernel,
    by decide +kernel, ?_, by decide +kernel⟩
  unfold HasEvent
  decide +kernel

end AsyncScheduler
