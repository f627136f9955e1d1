import AsyncScheduler.Common.Awaiting
import AsyncScheduler.Shared.Concurrent
import AsyncScheduler.Shared.Outcomes

/-!
# Background loops

A service has a loop that makes one tick after the other while it is running, with a pause after
each.
-/

namespace AsyncScheduler
open List

variable {κ σ α β : Type}

inductive LoopCommand (κ : Type) where
  -- `while self._running`
  | test
  -- `asyncio.sleep`
  | pause
  | call (c : κ)
  deriving DecidableEq

def LoopCommand.isTest : LoopCommand κ → Bool
  | .test => true
  | _ => false

def LoopCommand.apply (apply : κ → Fault → σ → σ) : LoopCommand κ → Fault → σ → σ
  | .call c, i, s => apply c i s
  | _, _, s => s

abbrev LoopStep (κ σ : Type) := Transition (LoopCommand κ) Fault σ

def Prog.calls {ι ε : Type} : Prog κ ι σ ε α → Prog (LoopCommand κ) ι σ ε α
  | .ret a => .ret a
  | .raise e => .raise e
  | .act c n => .act (.call c) fun i s => (n i s).calls

/-- `while self._running`, with a tick and a pause in the body. The flag is set as long as there are ticks left. -/
def whileRunning : List (Prog κ Fault σ PyErr Unit) → Prog (LoopCommand κ) Fault σ PyErr Unit
  | [] => .ret ()
  | tick :: ticks => do
    atOnce .test fun _ => ()
    tick.calls
    pausing .pause
    whileRunning ticks

def started (steps : List (LoopStep κ σ)) : Nat := steps.countP (·.cmd.isTest)

def SingleFaults (steps : List (LoopStep κ σ)) : Prop :=
  ∀ first tick last, steps = first ++ tick ++ last → (∀ t ∈ tick, t.cmd.isTest = false) →
    tick.countP (·.input ≠ .ok) ≤ 1

section
variable (I : σ → Prop) (May : κ → Prop)

/-- The states are in `I`, only calls of `May` raise, and nothing is cancelled. -/
def Permits (t : Transition κ Fault σ) : Prop :=
  I t.pre ∧ match t.input with
    | .ok => True
    | .fail _ => May t.cmd
    | .cancel _ => False

def LoopPermits (t : LoopStep κ σ) : Prop :=
  I t.pre ∧ match t.input, t.cmd with
    | .ok, _ => True
    | .fail _, .call c => May c
    | _, _ => False

def Survives (loop : List β → Prog (LoopCommand κ) Fault σ PyErr Unit) : Prop :=
  ∀ ticks steps q, Steps (loop ticks) steps q → q.finished = true → (∀ t ∈ steps, LoopPermits I May t) →
    SingleFaults steps → started steps = ticks.length

end

section
variable {I : σ → Prop} {May : κ → Prop}
variable {p : Prog κ Fault σ PyErr α} {A : Transition κ Fault σ → Prop} {c : κ} {reply : σ → Except PyErr α}
  {Q : α → Prop} {h : PyErr → Prog κ Fault σ PyErr α}

def Ordinary (r : Except PyErr α) : Prop := ∀ e, r = .error e → e.isException = true

theorem Ordinary.ok (a : α) : Ordinary (.ok a : Except PyErr α) := nofun

theorem Ordinary.error {e : PyErr} (he : e.isException = true) : Ordinary (.error e : Except PyErr α) := by
  intro e' he'
  cases he'
  exact he

theorem ordinary_bind {f : α → Prog κ Fault σ PyErr β}
    (hp : Outcomes A Ordinary p) (hf : ∀ a, Outcomes A Ordinary (f a)) : Outcomes A Ordinary (p.bind f) :=
  hp.bind (fun a _ => hf a) fun e he => .error (he e rfl)

theorem outcomes_awaiting {Q : Except PyErr α → Prop} (hok : ∀ s, I s → Q (reply s))
    (hf : May c → Q (.error connectionLost)) : Outcomes (Permits I May) Q (awaiting c reply) := by
  intro i s hp
  cases i with
  | ok =>
    have hr := hok s hp.1
    dsimp only
    cases h : reply s with
    | ok a =>
      rw [h] at hr
      exact hr
    | error e =>
      rw [h] at hr
      exact hr
  | fail applied => exact hf hp.2
  | cancel applied => exact hp.2.elim

theorem ordinary_awaiting (hok : ∀ s, I s → Ordinary (reply s)) :
    Outcomes (Permits I May) Ordinary (awaiting c reply) :=
  outcomes_awaiting hok fun _ => .error rfl

theorem returns_awaiting (hc : ¬ May c)
    (hok : ∀ s, I s → ∃ a, reply s = .ok a ∧ Q a) : Returns (Permits I May) Q (awaiting c reply) :=
  outcomes_awaiting hok fun hm => absurd hm hc

theorem returns_suppressErrors (hp : Returns A Q p) : Returns A (fun o => ∃ a, o = some a ∧ Q a) (suppressErrors p) :=
  (hp.bind fun a ha => .ret ⟨a, rfl, ha⟩).handle _

theorem returns_exceptException (hp : Outcomes A (fun r => Ordinary r ∧ ∀ a, r = .ok a → Q a) p)
    (hh : ∀ e, Returns A Q (h e)) : Returns A Q (exceptException p h) := by
  refine Outcomes.handle hp (fun a ha => ⟨a, rfl, ha.2 a rfl⟩) fun e he => ?_
  rw [if_pos (he.1 e rfl)]
  exact hh e

theorem ordinary_exceptException (hp : Outcomes A Ordinary p)
    (hh : ∀ e, e.isException = true → Outcomes A Ordinary (h e)) : Outcomes A Ordinary (exceptException p h) := by
  refine hp.handle (fun a _ => .ok a) fun e he => ?_
  rw [if_pos (he e rfl)]
  exact hh e (he e rfl)

def countTests (k : Nat) (t : LoopStep κ σ) : Option Nat := some (if t.cmd.isTest then k + 1 else k)

theorem foldlM_countTests (steps : List (LoopStep κ σ)) (k : Nat) :
    steps.foldlM countTests k = some (k + started steps) := by
  induction steps generalizing k with
  | nil => rfl
  | cons t steps ih =>
    rw [foldlM_cons, countTests]
    change steps.foldlM countTests _ = _
    rw [ih, started, started, countP_cons]
    congr 1
    split <;> omega

theorem follows_calls {Q : Except PyErr α → Prop} (hp : Outcomes (Permits I May) Q p) (k : Nat) :
    Follows (LoopPermits I May) countTests (fun l r => l = k ∧ Q r) p.calls k := by
  induction p with
  | ret a => exact ⟨rfl, hp⟩
  | raise e => exact ⟨rfl, hp⟩
  | act c n ih =>
    intro i s hpe
    refine ⟨k, rfl, ih i s (hp i s ⟨hpe.1, ?_⟩)⟩
    cases i with
    | ok => trivial
    | fail applied => exact hpe.2
    | cancel applied => exact hpe.2

theorem follows_pause (k : Nat) : Follows (LoopPermits I May) countTests (fun l r => l = k ∧ r = .ok ())
      (pausing .pause : Prog (LoopCommand κ) Fault σ PyErr Unit) k := by
  intro i s hp
  refine ⟨k, rfl, ?_⟩
  cases i with
  | ok => exact ⟨rfl, rfl⟩
  | fail applied => exact hp.2.elim
  | cancel applied => exact hp.2.elim

/-- A loop whose ticks all return starts every one of them. -/
theorem follows_whileRunning (ticks : List (Prog κ Fault σ PyErr Unit))
    (h : ∀ tick ∈ ticks, Outcomes (Permits I May) (· = .ok ()) tick) (k : Nat) :
    Follows (LoopPermits I May) countTests (fun l r => l = k + ticks.length ∧ r = .ok ()) (whileRunning ticks) k := by
  induction ticks generalizing k with
  | nil => exact ⟨rfl, rfl⟩
  | cons tick ticks ih =>
    intro i s _
    refine ⟨k + 1, rfl, ?_⟩
    refine (follows_calls (h tick mem_cons_self) (k + 1)).bind ?_ ?_
    · rintro l _ ⟨rfl, -⟩
      refine (follows_pause (k + 1)).bind ?_ ?_
      · rintro l _ ⟨rfl, -⟩
        refine (ih (fun tick' ht' => h tick' (mem_cons_of_mem _ ht')) (k + 1)).mono ?_
        rintro l r ⟨rfl, hr⟩
        exact ⟨by rw [length_cons]; omega, hr⟩
      · rintro l e ⟨-, he⟩
        cases he
    · rintro l e ⟨-, he⟩
      cases he

theorem follows_suppressed {L : Type} {A : LoopStep κ σ → Prop} {δ : L → LoopStep κ σ → Option L} {P : L → Prop}
    {loop : Prog (LoopCommand κ) Fault σ PyErr Unit} {k : L} (h : Follows A δ (fun l r => P l ∧ r = .ok ()) loop k) :
    Follows A δ (fun l r => P l ∧ r = .ok ()) (suppressErrors loop).void k := by
  refine Follows.bind (Q := fun l r => P l ∧ r = .ok (some ())) ?_ (fun l a hl => ⟨hl.1, rfl⟩) ?_
  · refine follows_exceptException (h.bind (R := fun l r => P l ∧ r = .ok (some ())) (fun l a hl => ⟨hl.1, rfl⟩) ?_)
      (fun l a hl => hl) (fun l e _ hl => ?_) fun l e _ hl => hl
    · rintro l e ⟨-, he⟩
      cases he
    · cases hl.2
  · rintro l e ⟨-, he⟩
    cases he

theorem Survives.of_follows {loop : List β → Prog (LoopCommand κ) Fault σ PyErr Unit}
    (h : ∀ ticks, Follows (LoopPermits I May) countTests (fun l r => l = ticks.length ∧ r = .ok ()) (loop ticks) 0) :
    Survives I May loop := by
  intro ticks steps q hs he hp _
  obtain ⟨l, hl, hq⟩ := (h ticks).steps hs hp
  rw [foldlM_countTests, Nat.zero_add] at hl
  cases hl
  cases q with
  | ret a => exact hq.1
  | raise e => exact hq.1
  | act c n => cases he

section
variable {apply : κ → Fault → σ → σ} {s s' : σ}
variable {steps : List (Transition κ Fault σ)} {e : PyErr}

def liftStep (t : Transition κ Fault σ) : LoopStep κ σ := ⟨.call t.cmd, t.input, t.pre⟩

theorem Path.calls {p q : Prog κ Fault σ PyErr α} (h : Path apply p s steps q s') :
    Path (LoopCommand.apply apply) p.calls s (steps.map liftStep) q.calls s' := by
  induction h with
  | refl p s => exact .refl _ _
  | cons i _ ih => exact .cons i ih

theorem path_whileRunning {tick : Prog κ Fault σ PyErr Unit}
    (h : Path apply tick s steps (.raise e) s') (ticks : List (Prog κ Fault σ PyErr Unit)) :
    Path (LoopCommand.apply apply) (whileRunning (tick :: ticks)) s (⟨.test, .ok, s⟩ :: steps.map liftStep) (.raise e) s' :=
  .cons Fault.ok (h.calls.bind_left _)

theorem finished_suppressed (apply : κ → Fault → σ → σ) (s s' : σ) (e : PyErr) :
    ∃ q : Prog (LoopCommand κ) Fault σ PyErr Unit, q.finished = true ∧ ∀ (loop : Prog (LoopCommand κ) Fault σ PyErr Unit) steps,
      Path (LoopCommand.apply apply) loop s steps (.raise e) s' →
        Path (LoopCommand.apply apply) (suppressErrors loop).void s steps q s' := by
  refine ⟨(if e.isException then if e.isBusiness then .raise e else .ret none else .raise e : Prog _ _ _ _ (Option Unit)).void,
    ?_, fun loop steps h => ((h.bind_left _).handle_left _).bind_left _⟩
  by_cases he : e.isException = true
  · by_cases hb : e.isBusiness = true
    · rw [if_pos he, if_pos hb]
      rfl
    · rw [if_pos he, if_neg hb]
      rfl
  · rw [if_neg he]
    rfl

theorem loopPermits_liftStep {t : Transition κ Fault σ} (h : Permits I May t) : LoopPermits I May (liftStep t) := by
  refine ⟨h.1, ?_⟩
  rcases t with ⟨c, i, s⟩
  cases i with
  | ok => trivial
  | fail applied => exact h.2
  | cancel applied => exact h.2

/-- A tick that raises what the loop does not catch ends it before the next tick. -/
theorem not_survives {loop : List β → Prog (LoopCommand κ) Fault σ PyErr Unit} (tick : β → Prog κ Fault σ PyErr Unit)
    {b : β} (h : Path apply (tick b) s steps (.raise e) s')
    (hl : ∃ q, q.finished = true ∧ ∀ body, Path (LoopCommand.apply apply) (whileRunning ([b, b].map tick)) s body (.raise e) s' →
      Path (LoopCommand.apply apply) (loop [b, b]) s body q s')
    (hpe : ∀ t ∈ steps, Permits I May t) (hs : I s) (ho : steps.countP (·.input ≠ .ok) ≤ 1) :
    ¬ Survives I May loop := by
  intro hsu
  obtain ⟨q, he, hl⟩ := hl
  have hp := hl _ (path_whileRunning h [tick b])
  have hli : (steps.map liftStep).countP (·.input ≠ .ok) = steps.countP (·.input ≠ .ok) := countP_map
  have hc : started (⟨.test, .ok, s⟩ :: steps.map liftStep : List (LoopStep κ σ)) = 1 := by
    have hn : (steps.map liftStep).countP (fun t => t.cmd.isTest) = 0 := by
      rw [countP_map, countP_eq_zero]
      exact fun t _ => by simp [liftStep, LoopCommand.isTest]
    rw [started, countP_cons_of_pos rfl, hn]
  have htw := hsu [b, b] _ q hp.toSteps he ?_ ?_
  · rw [hc] at htw
    cases htw
  · intro t ht
    rcases mem_cons.mp ht with rfl | ht
    · exact ⟨hs, trivial⟩
    · obtain ⟨t', ht', rfl⟩ := mem_map.mp ht
      exact loopPermits_liftStep (hpe t' ht')
  · intro first mid last hsp _
    refine Nat.le_trans ?_ ho
    rw [← hli]
    have ha : (⟨.test, .ok, s⟩ :: steps.map liftStep : List (LoopStep κ σ)).countP (·.input ≠ .ok) =
        (steps.map liftStep).countP (·.input ≠ .ok) := countP_cons_of_neg (by simp)
    rw [← ha, hsp, countP_append, countP_append]
    omega

end

end

end AsyncScheduler
