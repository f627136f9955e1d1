import AsyncScheduler.Common.ErrorHandling
import AsyncScheduler.Shared.Protocol

/-!
# Awaited commands

An awaited command can fail or be cancelled, and in both cases it may have been applied or not.
-/

namespace AsyncScheduler

inductive Fault where
  | ok
  | fail (applied : Bool)
  | cancel (applied : Bool)
  deriving DecidableEq, Repr

def Fault.applied : Fault → Bool
  | .ok => true
  | .fail a | .cancel a => a

def Fault.interrupt : Fault → Option PyErr
  | .cancel _ => some .cancelledError
  | _ => none

def connectionLost : PyErr := .connectionError "Connection lost"

def Fault.answer {α : Type} (reply : Except PyErr α) : Fault → Except PyErr α
  | .ok => reply
  | .fail _ => .error connectionLost
  | .cancel _ => .error .cancelledError

section
variable {κ σ α β L : Type}
variable {c : κ} {reply : σ → Except PyErr α} {I : σ → Prop} {C : κ → Prop} {steps : List (Transition κ Fault σ)}
  {a : α}

def awaiting (c : κ) (reply : σ → Except PyErr α) : Prog κ Fault σ PyErr α :=
  .act c fun i s =>
    match i with
    | .ok =>
      match reply s with
      | .ok a => .ret a
      | .error e => .raise e
    | .fail _ => .raise connectionLost
    | .cancel _ => .raise .cancelledError

def pausing (c : κ) : Prog κ Fault σ PyErr Unit :=
  .act c fun i _ =>
    match i.interrupt with
    | some e => .raise e
    | none => .ret ()

def atOnce (c : κ) (f : σ → α) : Prog κ Fault σ PyErr α := .act c fun _ s => .ret (f s)

@[simp] theorem runWith_awaiting (apply : κ → Fault → σ → σ) (c : κ) (reply : σ → Except PyErr α) (s : σ) :
    (awaiting c reply).runWith apply .ok s = (reply s, apply c .ok s) := by
  simp only [awaiting, Prog.runWith_act]
  cases reply s <;> rfl

theorem issues_awaiting {Q : α → Prop}
    (hc : C c) (hQ : ∀ s a, I s → reply s = .ok a → Q a) : Issues I C Q (awaiting c reply) := by
  refine ⟨hc, fun i s hs => ?_⟩
  cases i with
  | ok =>
    dsimp only
    split
    · exact hQ s _ hs ‹_›
    · trivial
  | fail _ => trivial
  | cancel _ => trivial

theorem issues_pausing (hc : C c) : Issues I C (fun _ => True) (pausing c : Prog κ Fault σ PyErr Unit) := by
  refine ⟨hc, fun i s _ => ?_⟩
  dsimp only
  split <;> trivial

theorem steps_awaiting
    {q : Prog κ Fault σ PyErr α} (h : Steps (awaiting c reply) steps q) : steps = [] ∨ ∃ i s, steps = [⟨c, i, s⟩] := by
  cases h with
  | refl => exact .inl rfl
  | cons i s hr =>
    refine .inr ⟨i, s, ?_⟩
    cases i with
    | ok =>
      dsimp only at hr
      split at hr
      · rw [hr.of_ret]
      · rw [hr.of_raise]
    | fail applied | cancel applied => rw [hr.of_raise]

theorem steps_awaiting_ret
    (h : Steps (awaiting c reply) steps (.ret a)) : ∃ s, steps = [⟨c, .ok, s⟩] ∧ reply s = .ok a := by
  cases h with
  | cons i s hr =>
    refine ⟨s, ?_⟩
    cases i with
    | ok =>
      dsimp only at hr
      split at hr
      · next hre =>
        cases hr
        exact ⟨rfl, hre⟩
      · cases hr
    | fail applied => cases hr
    | cancel applied => cases hr

theorem path_awaiting (apply : κ → Fault → σ → σ) (c : κ) {s : σ}
    (h : reply s = .ok a) : Path apply (awaiting c reply) s [⟨c, .ok, s⟩] (.ret a) (apply c .ok s) := by
  unfold awaiting
  refine Path.cons Fault.ok ?_
  simp only [h]
  exact .refl _ _

theorem path_awaiting_fail (apply : κ → Fault → σ → σ) (c : κ) (reply : σ → Except PyErr α) (s : σ) :
    Path apply (awaiting c reply) s [⟨c, .fail false, s⟩] (.raise connectionLost) (apply c (.fail false) s) :=
  .cons (Fault.fail false) (.refl _ _)

section Handlers
variable {I : σ → Prop} {C : κ → Prop} {Q : α → Prop} {p : Prog κ Fault σ PyErr α}

theorem issues_suppressErrors (hp : Issues I C Q p) : Issues I C (fun a => ∀ b, a = some b → Q b) (suppressErrors p) := by
  refine Issues.handle (hp.bind fun a ha b hb => Option.some.inj hb ▸ ha) fun e => ?_
  split
  · dsimp only
    split
    · trivial
    · exact fun b hb => nomatch hb
  · trivial

end Handlers

section Follow
variable {A : Transition κ Fault σ → Prop} {δ : L → Transition κ Fault σ → Option L}
  {Q Q' : L → Except PyErr α → Prop} {l : L}

theorem follows_awaiting {c : κ} {reply : σ → Except PyErr α}
    (h : ∀ i s, A ⟨c, i, s⟩ → ∃ l', δ l ⟨c, i, s⟩ = some l' ∧ Q l' (i.answer (reply s))) :
    Follows A δ Q (awaiting c reply) l := by
  intro i s hA
  obtain ⟨l', hl', hQ⟩ := h i s hA
  refine ⟨l', hl', ?_⟩
  cases i with
  | ok =>
    change Q l' (reply s) at hQ
    dsimp only
    cases hr : reply s with
    | ok a =>
      rw [hr] at hQ
      exact hQ
    | error e =>
      rw [hr] at hQ
      exact hQ
  | fail applied => exact hQ
  | cancel applied => exact hQ

theorem follows_exceptException {p : Prog κ Fault σ PyErr α} {h : PyErr → Prog κ Fault σ PyErr α}
    (hp : Follows A δ Q p l) (hok : ∀ l a, Q l (.ok a) → Q' l (.ok a))
    (hc : ∀ l e, e.isException = true → Q l (.error e) → Follows A δ Q' (h e) l)
    (ho : ∀ l e, e.isException = false → Q l (.error e) → Q' l (.error e)) :
    Follows A δ Q' (exceptException p h) l := by
  refine hp.handle hok fun l e he => ?_
  split
  · next hex => exact hc l e hex he
  · next hex => exact ho l e (by simpa using hex) he

end Follow
end

end AsyncScheduler
