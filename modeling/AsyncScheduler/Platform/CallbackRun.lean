import AsyncScheduler.Platform.QueueEffects
import AsyncScheduler.Platform.TaskCompletionNode

/-!
# A pass over the retry set, step by step

The processing of one entry and of a whole pass, for any protocol that their steps are to follow.
-/

namespace AsyncScheduler

namespace Step

def Reliable (t : Step) : Prop :=
  t.input = .ok ∨ (∃ request, t.cmd = .post request) ∧ ∃ applied, t.input = .fail applied

def isPost (t : Step) : Bool :=
  match t.cmd with
  | .post _ => true
  | _ => false

def hasFailed (t : Step) : Bool :=
  match t.input with
  | .fail _ => true
  | _ => false

theorem reliable_iff (t : Step) : Reliable t ↔ t.input = .ok ∨ isPost t = true ∧ hasFailed t = true := by
  obtain ⟨c, i, w⟩ := t
  refine or_congr Iff.rfl (and_congr ?_ ?_)
  · cases c <;> simp [isPost]
  · cases i <;> simp [hasFailed]

instance (t : Step) : Decidable (Reliable t) := decidable_of_iff _ (reliable_iff t).symm

theorem Reliable.input_eq {c : Command} {i : Fault} {w : World} (h : Reliable ⟨c, i, w⟩)
    (hc : ∀ request, c ≠ .post request) : i = .ok := by
  rcases h with hok | ⟨⟨request, hp⟩, -⟩
  · exact hok
  · exact absurd hp (hc request)

def notifies (x : String) (t : Step) : Bool :=
  match t.cmd with
  | .post request => request.idempotencyKey = x
  | _ => false

theorem Reliable.apply_eq {c : Command} {i : Fault} {w : World} (h : Reliable ⟨c, i, w⟩) : c.apply i w = w.exec c := by
  rcases h with hok | ⟨⟨request, hp⟩, applied, hf⟩
  · cases hok
    rfl
  · cases hp
    cases hf
    cases applied <;> rfl

end Step

namespace TaskCompletionNode

section
variable (node : TaskCompletionNode) {L : Type} {A : Transition Command Fault World → Prop} {δ : L → Transition Command Fault World → Option L} {l : L}

/-- A pass follows a protocol when the processing of each member leads back to where it began. -/
theorem follows_processDueCallbacks (hr : ∀ i w, A ⟨.read, i, w⟩ → δ l ⟨.read, i, w⟩ = some l)
    (hm : node.hasRedis = true → ∀ member, Follows A δ (fun l' _ => l' = l) (node.processMember member) l)
    (batchSize : Int) : Follows A δ (fun l' _ => l' = l) (node.processDueCallbacks batchSize) l := by
  unfold processDueCallbacks
  split
  · rename_i hre
    have hme (members : List String) (processed : Nat) :
        Follows A δ (fun l' _ => l' = l) (node.processMembers members processed) l := by
      induction members generalizing processed with
      | nil => rfl
      | cons member rest ih =>
        refine (hm hre member).bind (fun l' done hl' => ?_) fun _ _ hl' => hl'
        rw [hl']
        exact ih _
    refine Follows.bind (Q := fun l' _ => l' = l)
      (follows_immediately fun i w hA => ⟨l, hr i w hA, rfl⟩) (fun l' now hl' => ?_) fun _ _ hl' => hl'
    rw [hl']
    refine Follows.bind (Q := fun l' _ => l' = l)
      (follows_await fun i w hA => ⟨l, hr i w hA, rfl⟩) (fun l' events hl' => ?_) fun _ _ hl' => hl'
    rw [hl']
    exact hme events 0
  · rfl

end

section
variable {node : TaskCompletionNode} {L : Type} {A : Step → Prop} {δ : L → Step → Option L} {l l₁ l₀ : L}
  {e : CallbackEvent} {member : String}

def MayFail (A : Step → Prop) (e : CallbackEvent) : Prop := ∃ applied w, A ⟨.post e.request, .fail applied, w⟩

theorem follows_sendCallbackOnce (hA : ∀ t, A t → Step.Reliable t)
    (hs : ∀ w, A ⟨.post e.request, .ok, w⟩ → δ l ⟨.post e.request, .ok, w⟩ = some l₀)
    (hr : ∀ applied w, A ⟨.post e.request, .fail applied, w⟩ →
      δ l ⟨.post e.request, .fail applied, w⟩ = some l₁) :
    Follows A δ (fun l' r => (r = .ok true ∧ l' = l₀) ∨ (r = .ok false ∧ l' = l₁ ∧ MayFail A e))
      (sendCallbackOnce e) l := by
  have hp : Follows A δ (fun l' r => (r = .ok () ∧ l' = l₀) ∨ (r = .error connectionLost ∧ l' = l₁ ∧ MayFail A e))
      (perform (.post e.request)) l := by
    refine follows_await fun i w hAt => ?_
    cases i with
    | ok => exact ⟨l₀, hs w hAt, .inl ⟨rfl, rfl⟩⟩
    | fail applied => exact ⟨l₁, hr applied w hAt, .inr ⟨rfl, rfl, applied, w, hAt⟩⟩
    | cancel applied => rcases hA _ hAt with hok | ⟨-, applied', hf⟩ <;> contradiction
  refine follows_exceptException
    (Q := fun l' r => (r = .ok true ∧ l' = l₀) ∨ (r = .error connectionLost ∧ l' = l₁ ∧ MayFail A e))
    (hp.bind ?_ ?_) ?_ ?_ ?_
  · rintro l' a (⟨-, hl'⟩ | ⟨he, -⟩)
    · exact .inl ⟨rfl, hl'⟩
    · cases he
  · rintro l' err (⟨hok, -⟩ | ⟨he, hl'⟩)
    · cases hok
    · exact .inr ⟨congrArg Except.error (Except.error.inj he), hl'⟩
  · rintro l' sent (hok | ⟨he, -⟩)
    · exact .inl hok
    · cases he
  · rintro l' err - (⟨hok, -⟩ | ⟨-, hl'⟩)
    · cases hok
    · exact .inr ⟨rfl, hl'⟩
  · rintro l' err hex (⟨hok, -⟩ | ⟨he, -⟩)
    · cases hok
    · cases he
      cases hex

theorem follows_reliable {c : Command} {l' : L} (hA : ∀ t, A t → Step.Reliable t) (hp : ∀ request, c ≠ .post request)
    (h : ∀ w, A ⟨c, .ok, w⟩ → δ l ⟨c, .ok, w⟩ = some l') : Follows A δ (fun l'' _ => l'' = l') (perform c) l :=
  follows_await fun i w hAt => by
    obtain rfl := (hA _ hAt).input_eq hp
    exact ⟨l', h w hAt, rfl⟩

/-- A delivery follows a protocol that allows its request and then a mark, a retry or the dead-letter set. -/
theorem follows_deliverEvent (l₁ : L) (hr : node.hasRedis = true) (hA : ∀ t, A t → Step.Reliable t)
    (hs : ∀ w, A ⟨.post e.request, .ok, w⟩ → δ l ⟨.post e.request, .ok, w⟩ = some l₀)
    (hre : ∀ applied w, A ⟨.post e.request, .fail applied, w⟩ →
      δ l ⟨.post e.request, .fail applied, w⟩ = some l₁)
    (hdo : ∀ w, A ⟨.keys [(QueueKeys.callbackDone e.taskId, .set (.text "1") (some 86400))], .ok, w⟩ →
      δ l₀ ⟨.keys [(QueueKeys.callbackDone e.taskId, .set (.text "1") (some 86400))], .ok, w⟩ = some l₀)
    (hc : ∀ i w, A ⟨.read, i, w⟩ → δ l₁ ⟨.read, i, w⟩ = some l₁)
    (hret : MayFail A e → (e.attempt : Int) < node.maxDurableAttempts → ∀ score w,
      A ⟨.callbackRetry (node.codec.dumps { e with attempt := e.attempt + 1 }) score [], .ok, w⟩ →
      δ l₁ ⟨.callbackRetry (node.codec.dumps { e with attempt := e.attempt + 1 }) score [], .ok, w⟩ = some l₀)
    (hd : MayFail A e → ¬ (e.attempt : Int) < node.maxDurableAttempts → ∀ score w,
      A ⟨.callbacks (.deadLetter member score), .ok, w⟩ →
      δ l₁ ⟨.callbacks (.deadLetter member score), .ok, w⟩ = some l₀)
    (hk : ∀ w, A ⟨.callbacks (.keepDeadLetters 2592000), .ok, w⟩ →
      δ l₀ ⟨.callbacks (.keepDeadLetters 2592000), .ok, w⟩ = some l₀) :
    Follows A δ (fun l' _ => l' = l₀) (node.deliverEvent member e) l := by
  have ht : Follows A δ (fun l' r => l' = l₁ ∧ ∃ t, r = .ok t) time l₁ :=
    follows_immediately fun i w hAt => ⟨l₁, hc i w hAt, rfl, _, rfl⟩
  refine (follows_sendCallbackOnce hA hs hre).bind ?_ ?_
  · rintro l' sent (⟨hok, hl'⟩ | ⟨hok, hl', hm⟩)
    · cases hok
      subst hl'
      exact follows_reliable hA (by simp) hdo
    · cases hok
      subst hl'
      rw [if_neg (by simp)]
      split
      · unfold enqueueCallbackRetry
        rw [if_pos hr]
        refine ht.bind ?_ ?_
        · rintro l' t ⟨rfl, -⟩
          exact follows_reliable hA (by simp) (hret hm ‹_› _)
        · rintro l' err ⟨-, t, he⟩
          cases he
      · refine ht.bind ?_ ?_
        · rintro l' t ⟨rfl, -⟩
          refine (follows_reliable hA (by simp) (hd hm ‹_› t)).bind ?_ fun _ _ hl' => hl'
          rintro l' a rfl
          exact follows_reliable hA (by simp) hk
        · rintro l' err ⟨-, t, he⟩
          cases he
  · rintro l' err (⟨hok, -⟩ | ⟨hok, -⟩) <;> cases hok

end

end TaskCompletionNode

section
open QueueKeys Redis

def EventCodec.ofTask (codec : EventCodec) (x member : String) : Option CallbackEvent :=
  match codec.loads member with
  | .event e => if e.taskId = x then some e else none
  | _ => none

theorem EventCodec.ofTask_eq_some {codec : EventCodec} {x member : String} {e : CallbackEvent} :
    codec.ofTask x member = some e ↔ codec.loads member = .event e ∧ e.taskId = x := by
  unfold ofTask
  cases hl : codec.loads member with
  | event e' =>
    by_cases hx : e'.taskId = x
    · simp only [if_pos hx, Option.some.injEq, Loaded.event.injEq]
      exact ⟨fun h => ⟨h, h ▸ hx⟩, And.left⟩
    · simp only [if_neg hx, Loaded.event.injEq]
      constructor
      · intro h
        cases h
      · rintro ⟨rfl, hx'⟩
        exact absurd hx' hx
  | scalar typeName => simp
  | invalid => simp

theorem EventCodec.ofTask_dumps (codec : EventCodec) (e : CallbackEvent) :
    codec.ofTask e.taskId (codec.dumps e) = some e :=
  ofTask_eq_some.mpr ⟨codec.loads_dumps e, rfl⟩

namespace World

def Waits (codec : EventCodec) (x : String) (w : World) (member : String) : Prop :=
  member ∈ w.redis.zsets callbackRetry ∧ (codec.ofTask x member).isSome = true

def KeepsRetries (w : World) : Prop := w.redis.zexpire callbackRetry = none

end World

def Command.sparesRetries : Command → Bool
  | .queue _ | .breaker _ | .callbackRetry .. | .callbacks (.claim _) => false
  | _ => true

section
variable {w : World} {c : Command} {codec : EventCodec} {x member : String}

theorem retrySet_exec (hc : c.sparesRetries = true) (hw : w.KeepsRetries) :
    (w.exec c).redis.zsets callbackRetry = w.redis.zsets callbackRetry ∧ (w.exec c).KeepsRetries := by
  cases c with
  | read => exact ⟨rfl, hw⟩
  | keys ops =>
    have hs := sorted_runKeys ops w.redis
    exact ⟨congrFun (zsets_of_sorted hs) _, (congrFun (zexpire_of_sorted hs) _).trans hw⟩
  | queue op | breaker op | callbackRetry m score ops => cases hc
  | callbacks op =>
    have hk : callbackRetry ≠ callbackDlq := by decide
    cases op with
    | claim m => cases hc
    | deadLetter m score =>
      refine ⟨(zsets_zadd ..).trans (if_neg hk), ?_⟩
      exact ((zexpire_putZset ..).trans (if_neg hk)).trans hw
    | keepDeadLetters seconds =>
      refine ⟨(zsets_zexpireIn ..).trans (if_neg fun h => hk h.1), ?_⟩
      exact (zexpire_zexpireIn_of_ne _ _ _ _ hk).trans hw
  | post request => exact ⟨rfl, hw⟩
  | commit writes =>
    simp only [World.exec]
    split
    · exact ⟨rfl, hw⟩
    · exact ⟨rfl, hw⟩
  | memory op =>
    cases op with
    | acquirePermit n =>
      simp only [World.exec]
      split
      · exact ⟨rfl, hw⟩
      · exact ⟨rfl, hw⟩
    | addActive n y | discardActive n y | releasePermit n => exact ⟨rfl, hw⟩
  | mark m => exact ⟨rfl, hw⟩
  | advance t =>
    have hl : w.redis.zexpire callbackRetry = none := hw
    simp only [World.exec]
    split
    · refine ⟨?_, ?_⟩
      · change (w.redis.advance t).zsets callbackRetry = _
        rw [zsets_advance, hl]
        rfl
      · change (w.redis.zexpire callbackRetry).filter _ = none
        rw [hl]
        rfl
    · exact ⟨rfl, hw⟩

theorem zscore_isSome_iff {r : Store} {k m : String} : (r.zscore k m).isSome = true ↔ m ∈ r.zsets k := by
  rw [← Option.ne_none_iff_isSome, Redis.zscore, Ne, SortedSet.score_eq_none_iff, not_not]

theorem waits_of_spares (hc : c.sparesRetries = true) (hw : w.KeepsRetries) (m : String) :
    (w.exec c).Waits codec x m ↔ w.Waits codec x m := by
  unfold World.Waits
  rw [(retrySet_exec hc hw).1]

theorem zexpire_putZset_of_none {r : Store} {k : String} (z : ZSet) (h : r.zexpire k = none) :
    (r.putZset k z).zexpire k = none := by
  rw [zexpire_putZset, if_pos rfl, Redis.deadline, h]
  split
  · rfl
  · split <;> rfl

theorem keepsRetries_claim (m : String) (hw : w.KeepsRetries) : (w.exec (.callbacks (.claim m))).KeepsRetries :=
  zexpire_putZset_of_none _ hw

theorem keepsRetries_retry (m : String) (score : ℚ) (hw : w.KeepsRetries) : (w.exec (.callbackRetry m score [])).KeepsRetries :=
  zexpire_putZset_of_none _ hw

theorem waits_claim (m : String) :
    (w.exec (.callbacks (.claim m))).Waits codec x member ↔ w.Waits codec x member ∧ member ≠ m := by
  have hset : (w.exec (.callbacks (.claim m))).redis.zsets callbackRetry = (w.redis.zsets callbackRetry).remove m :=
    (zsets_zrem ..).trans (if_pos rfl)
  unfold World.Waits
  rw [hset, SortedSet.mem_remove]
  tauto

theorem waits_retry (m : String) (score : ℚ) : (w.exec (.callbackRetry m score [])).Waits codec x member ↔
      w.Waits codec x member ∨ member = m ∧ (codec.ofTask x m).isSome = true := by
  have hset : (w.exec (.callbackRetry m score [])).redis.zsets callbackRetry = (w.redis.zsets callbackRetry).add m score :=
    (zsets_zadd ..).trans (if_pos rfl)
  unfold World.Waits
  rw [hset, SortedSet.mem_add]
  constructor
  · rintro ⟨rfl | hm, hof⟩
    · exact .inr ⟨rfl, hof⟩
    · exact .inl ⟨hm, hof⟩
  · rintro (⟨hm, hof⟩ | ⟨rfl, hof⟩)
    · exact ⟨.inr hm, hof⟩
    · exact ⟨.inl rfl, hof⟩

/-- A dead letter stays unless its set expires. -/
theorem deadLetter_exec (hq : ∀ op, c ≠ .queue op) (hb : ∀ op, c ≠ .breaker op)
    (hk : ∀ seconds, c = .callbacks (.keepDeadLetters seconds) → 0 < seconds)
    (hin : member ∈ w.redis.zsets callbackDlq) :
    member ∈ (w.exec c).redis.zsets callbackDlq ∨ c.expires w callbackDlq = true := by
  have hke : callbackDlq ≠ callbackRetry := by decide
  cases c with
  | read => exact .inl hin
  | keys ops =>
    refine .inl ?_
    change member ∈ (World.runKeys w.redis ops).zsets callbackDlq
    rw [zsets_of_sorted (sorted_runKeys ops w.redis)]
    exact hin
  | queue op => exact absurd rfl (hq op)
  | breaker op => exact absurd rfl (hb op)
  | callbackRetry m score ops =>
    refine .inl ?_
    change member ∈ (World.runKeys (w.redis.zadd callbackRetry score m) ops).zsets callbackDlq
    rw [zsets_of_sorted (sorted_runKeys ops _), zsets_zadd, if_neg hke]
    exact hin
  | callbacks op =>
    refine .inl ?_
    cases op with
    | claim m =>
      change member ∈ (w.redis.zrem callbackRetry m).zsets callbackDlq
      rw [zsets_zrem, if_neg hke]
      exact hin
    | deadLetter m score =>
      change member ∈ (w.redis.zadd callbackDlq score m).zsets callbackDlq
      rw [zsets_zadd, if_pos rfl, SortedSet.mem_add]
      exact .inr hin
    | keepDeadLetters seconds =>
      change member ∈ (w.redis.zexpireIn callbackDlq seconds).zsets callbackDlq
      rw [zsets_zexpireIn, if_neg fun h => absurd (hk seconds rfl) (not_lt.mpr h.2)]
      exact hin
  | post request => exact .inl hin
  | commit writes =>
    refine .inl ?_
    simp only [World.exec]
    split
    · exact hin
    · exact hin
  | memory op =>
    refine .inl ?_
    cases op with
    | acquirePermit n =>
      simp only [World.exec]
      split
      · exact hin
      · exact hin
    | addActive n y | discardActive n y | releasePermit n => exact hin
  | mark m => exact .inl hin
  | advance now =>
    by_cases hl : w.redis.clock < now
    · cases hli : Redis.live now (w.redis.zexpire callbackDlq) with
      | true =>
        refine .inl ?_
        simp only [World.exec, if_pos hl]
        change member ∈ (w.redis.advance now).zsets callbackDlq
        rw [zsets_advance, if_pos hli]
        exact hin
      | false => exact .inr (by simp [Command.expires, hl, hli])
    · refine .inl ?_
      simp only [World.exec, if_neg hl]
      exact hin

end

end

end AsyncScheduler
