import Mathlib.Logic.Function.Basic
import Mathlib.Tactic.Common

/-!
# Programs of atomic commands

A program issues commands one after the other and ends with a value or an error. Between two
commands it only computes.
-/

namespace AsyncScheduler

inductive Prog (κ ι σ ε α : Type) where
  | ret (a : α)
  | raise (e : ε)
  | act (c : κ) (next : ι → σ → Prog κ ι σ ε α)

/-- A command, the input it was given and the state it was issued in. -/
structure Transition (κ ι σ : Type) where
  cmd : κ
  input : ι
  pre : σ

namespace Prog
variable {κ ι σ τ ε ε' α β γ : Type}

def bind : Prog κ ι σ ε α → (α → Prog κ ι σ ε β) → Prog κ ι σ ε β
  | .ret a, f => f a
  | .raise e, _ => .raise e
  | .act c n, f => .act c fun i s => (n i s).bind f

instance : Monad (Prog κ ι σ ε) where
  pure := .ret
  bind := bind

def handle : Prog κ ι σ ε α → (ε → Prog κ ι σ ε α) → Prog κ ι σ ε α
  | .ret a, _ => .ret a
  | .raise e, h => h e
  | .act c n, h => .act c fun i s => (n i s).handle h

/-- `handle` with a handler that raises errors of its own kind. -/
def recover : Prog κ ι σ ε α → (ε → Prog κ ι σ ε' α) → Prog κ ι σ ε' α
  | .ret a, _ => .ret a
  | .raise e, h => h e
  | .act c n, h => .act c fun i s => (n i s).recover h

def ensure : Prog κ ι σ ε α → (Except ε α → Prog κ ι σ ε Unit) → Prog κ ι σ ε α
  | .ret a, f => (f (.ok a)).bind fun _ => .ret a
  | .raise e, f => (f (.error e)).bind fun _ => .raise e
  | .act c n, f => .act c fun i s => (n i s).ensure f

def void (p : Prog κ ι σ ε α) : Prog κ ι σ ε Unit := p.bind fun _ => .ret ()

def forEach (f : α → Prog κ ι σ ε Unit) : List α → Prog κ ι σ ε Unit
  | [] => .ret ()
  | a :: as => (f a).bind fun _ => forEach f as

section Concurrent
variable (stop : ι → Option ε)

/-- The outcome of a child as a value; an interrupt ends the whole program instead. -/
def settle : Prog κ ι σ ε α → Prog κ ι σ ε (Except ε α)
  | .ret a => .ret (.ok a)
  | .raise e => .ret (.error e)
  | .act c n => .act c fun i s =>
    match stop i with
    | some e => .raise e
    | none => (n i s).settle

def settleAll : List (Prog κ ι σ ε α) → Prog κ ι σ ε (List (Except ε α))
  | [] => .ret []
  | p :: ps => (p.settle stop).bind fun r => (settleAll ps).bind fun rs => .ret (r :: rs)

/-- Run all children to their ends in the order a schedule gives: each entry
lets one child issue one command. What is left when the schedule ends runs in turn. -/
def gather : List Nat → List (Prog κ ι σ ε α) → Prog κ ι σ ε (List (Except ε α))
  | [], ps => settleAll stop ps
  | j :: sched, ps =>
    match ps[j]? with
    | some (.act c n) => .act c fun i s =>
      match stop i with
      | some e => .raise e
      | none => gather sched (ps.set j (n i s))
    | _ => gather sched ps

end Concurrent

/-- Run `main` to its end; an entry `true` of the schedule lets the background
program issue one command first. Returns how `main` ended and what is left of the
background program. -/
def withBackground : List Bool → Prog κ ι σ ε β → Prog κ ι σ ε α → Prog κ ι σ ε (Except ε α × Prog κ ι σ ε β)
  | [], bg, main => (main.settle fun _ => none).bind fun r => .ret (r, bg)
  | b :: sched, bg, main =>
    match main with
    | .ret a => .ret (.ok a, bg)
    | .raise e => .ret (.error e, bg)
    | .act c n =>
      match b, bg with
      | true, .act d m => .act d fun i s => withBackground sched (m i s) (.act c n)
      | _, bg => .act c fun i s => withBackground sched bg (n i s)

/-- A program whose commands act on a private state, seen from outside: each
command becomes `c`, which stands for work done elsewhere. -/
def runLocal (step : τ → ι → σ → σ) (c : κ) : σ → Prog τ ι σ ε α → Prog κ ι γ ε (Except ε α × σ)
  | s, .ret a => .ret (.ok a, s)
  | s, .raise e => .ret (.error e, s)
  | s, .act d n => .act c fun i _ => runLocal step c (step d i s) (n i s)

/-- A value the program can return, whatever it is given and whatever it sees. -/
inductive Yields : Prog κ ι σ ε α → α → Prop
  | ret (a : α) : Yields (.ret a) a
  | act {c : κ} {n : ι → σ → Prog κ ι σ ε α} {a : α} (i : ι) (s : σ) : Yields (n i s) a →
      Yields (.act c n) a

namespace Yields
variable {p : Prog κ ι σ ε α} {a : α}
variable {f : α → Prog κ ι σ ε β} {b : β}

theorem of_bind (h : (p.bind f).Yields b) : ∃ a, p.Yields a ∧ (f a).Yields b := by
  induction p with
  | ret a => exact ⟨a, .ret a, h⟩
  | raise e => cases h
  | act c n ih =>
    cases h with
    | act i s h =>
      obtain ⟨a, ha, hb⟩ := ih i s h
      exact ⟨a, .act i s ha, hb⟩

end Yields

/-- What a run on given inputs leaves: its outcome, the state, the inputs it has not used and the
commands it has issued. -/
structure Ran (κ ι σ ε α : Type) where
  outcome : Except ε α
  state : σ
  rest : List ι
  steps : List (Transition κ ι σ)

def Ran.after (r : Ran κ ι σ ε α) (earlier : List (Transition κ ι σ)) : Ran κ ι σ ε α :=
  { r with steps := earlier ++ r.steps }

section Alone
variable (apply : κ → ι → σ → σ)

def runWith (i : ι) : Prog κ ι σ ε α → σ → Except ε α × σ
  | .ret a, s => (.ok a, s)
  | .raise e, s => (.error e, s)
  | .act c n, s => (n i s).runWith i (apply c i s)

def transitions (i : ι) : Prog κ ι σ ε α → σ → List (Transition κ ι σ)
  | .ret _, _ => []
  | .raise _, _ => []
  | .act c n, s => ⟨c, i, s⟩ :: (n i s).transitions i (apply c i s)

def feed : List ι → Prog κ ι σ ε α → σ → Prog κ ι σ ε α × σ
  | i :: is, .act c n, s => feed is (n i s) (apply c i s)
  | _, p, s => (p, s)

/-- One input for each command, and `i` for those after the last one. -/
def runOn (i : ι) : List ι → Prog κ ι σ ε α → σ → Ran κ ι σ ε α
  | is, .ret a, s => ⟨.ok a, s, is, []⟩
  | is, .raise e, s => ⟨.error e, s, is, []⟩
  | is, .act c n, s =>
    ((n (is.headD i) s).runOn i is.tail (apply c (is.headD i) s)).after [⟨c, is.headD i, s⟩]

end Alone

@[simp] theorem pure_eq (a : α) : (pure a : Prog κ ι σ ε α) = .ret a := rfl

@[simp] theorem bind_eq (p : Prog κ ι σ ε α) (f : α → Prog κ ι σ ε β) : p >>= f = p.bind f := rfl

@[simp] theorem ret_bind (a : α) (f : α → Prog κ ι σ ε β) : (Prog.ret a).bind f = f a := rfl

theorem bind_assoc (p : Prog κ ι σ ε α) (f : α → Prog κ ι σ ε β) (g : β → Prog κ ι σ ε γ) :
    (p.bind f).bind g = p.bind fun a => (f a).bind g := by
  induction p with
  | ret a => rfl
  | raise e => rfl
  | act c n ih => exact congrArg _ (funext fun i => funext fun s => ih i s)

section Alone
variable {apply : κ → ι → σ → σ}
variable {i : ι} {s : σ} {p : Prog κ ι σ ε α} {t : Transition κ ι σ} {a : α} {s' : σ} {f : α → Prog κ ι σ ε β}
  {h : ε → Prog κ ι σ ε α}

@[simp] theorem runWith_ret (i : ι) (a : α) (s : σ) :
    (Prog.ret a : Prog κ ι σ ε α).runWith apply i s = (.ok a, s) := rfl

@[simp] theorem runWith_raise (i : ι) (e : ε) (s : σ) :
    (Prog.raise e : Prog κ ι σ ε α).runWith apply i s = (.error e, s) := rfl

@[simp] theorem runWith_act (i : ι) (c : κ) (n : ι → σ → Prog κ ι σ ε α) (s : σ) :
    (Prog.act c n).runWith apply i s = (n i s).runWith apply i (apply c i s) := rfl

theorem runWith_bind (i : ι) (p : Prog κ ι σ ε α) (f : α → Prog κ ι σ ε β) (s : σ) :
    (p.bind f).runWith apply i s =
      match p.runWith apply i s with
      | (.ok a, s') => (f a).runWith apply i s'
      | (.error e, s') => (.error e, s') := by
  induction p generalizing s with
  | ret a => rfl
  | raise e => rfl
  | act c n ih => exact ih i s (apply c i s)

theorem runWith_void (i : ι) (p : Prog κ ι σ ε α) (s : σ) :
    p.void.runWith apply i s = ((p.runWith apply i s).1.map fun _ => (), (p.runWith apply i s).2) := by
  rw [void, runWith_bind]
  obtain ⟨outcome, s'⟩ := p.runWith apply i s
  cases outcome <;> rfl

theorem runWith_bind_ok (h : p.runWith apply i s = (.ok a, s')) (f : α → Prog κ ι σ ε β) :
    (p.bind f).runWith apply i s = (f a).runWith apply i s' := by
  rw [runWith_bind, h]

theorem runWith_bind_eq_ok {b : β} : (p.bind f).runWith apply i s = (.ok b, s') ↔
      ∃ a s₁, p.runWith apply i s = (.ok a, s₁) ∧ (f a).runWith apply i s₁ = (.ok b, s') := by
  rw [runWith_bind]
  constructor
  · intro h
    split at h
    · rename_i a s₁ hp
      exact ⟨a, s₁, hp, h⟩
    · cases h
  · rintro ⟨a, s₁, hp, hf⟩
    rw [hp]
    exact hf

theorem runWith_forEach {f : α → Prog κ ι σ ε Unit} {g : σ → α → σ}
    (h : ∀ a s, (f a).runWith apply i s = (.ok (), g s a)) (l : List α) (s : σ) :
    (forEach f l).runWith apply i s = (.ok (), l.foldl g s) := by
  induction l generalizing s with
  | nil => rfl
  | cons a l ih =>
    rw [forEach, runWith_bind_ok (h a s)]
    exact ih (g s a)

theorem runWith_handle (i : ι) (p : Prog κ ι σ ε α) (h : ε → Prog κ ι σ ε α) (s : σ) :
    (p.handle h).runWith apply i s =
      match p.runWith apply i s with
      | (.ok a, s') => (.ok a, s')
      | (.error e, s') => (h e).runWith apply i s' := by
  induction p generalizing s with
  | ret a => rfl
  | raise e => rfl
  | act c n ih => exact ih i s (apply c i s)

theorem runWith_ensure (i : ι) (p : Prog κ ι σ ε α) (f : Except ε α → Prog κ ι σ ε Unit) (s : σ) :
    (p.ensure f).runWith apply i s =
      match (f (p.runWith apply i s).1).runWith apply i (p.runWith apply i s).2 with
      | (.ok _, s') => ((p.runWith apply i s).1, s')
      | (.error e, s') => (.error e, s') := by
  induction p generalizing s with
  | ret a =>
    rw [ensure, runWith_bind, runWith_ret]
    obtain ⟨outcome, s'⟩ := (f (.ok a)).runWith apply i s
    cases outcome <;> rfl
  | raise e =>
    rw [ensure, runWith_bind, runWith_raise]
    obtain ⟨outcome, s'⟩ := (f (.error e)).runWith apply i s
    cases outcome <;> rfl
  | act c n ih => exact ih i s (apply c i s)

theorem yields_of_runWith (h : (p.runWith apply i s).1 = .ok a) : p.Yields a := by
  induction p generalizing s with
  | ret b =>
    rw [← Except.ok.inj h]
    exact .ret b
  | raise e => cases h
  | act c n ih => exact .act i s (ih i s h)

/-- A program on a state of its own leaves the state around it as it is. -/
theorem runWith_runLocal {step : τ → ι → γ → γ} {c : κ} (hc : ∀ s, apply c i s = s) (p : Prog τ ι γ ε α) (own : γ)
    (s : σ) : (runLocal step c own p : Prog κ ι σ ε (Except ε α × γ)).runWith apply i s =
      (.ok (p.runWith step i own), s) := by
  induction p generalizing own s with
  | ret a => rfl
  | raise e => rfl
  | act d n ih =>
    rw [runLocal, runWith_act, hc]
    exact ih i own (step d i own) s

theorem transitions_bind (i : ι) (p : Prog κ ι σ ε α) (f : α → Prog κ ι σ ε β) (s : σ) :
    (p.bind f).transitions apply i s = p.transitions apply i s ++
      match p.runWith apply i s with
      | (.ok a, s') => (f a).transitions apply i s'
      | (.error _, _) => [] := by
  induction p generalizing s with
  | ret a => rfl
  | raise e => rfl
  | act c n ih => exact congrArg _ (ih i s (apply c i s))

theorem input_of_mem_transitions (h : t ∈ p.transitions apply i s) : t.input = i := by
  induction p generalizing s with
  | ret a => cases h
  | raise e => cases h
  | act c n ih =>
    rcases List.mem_cons.mp h with rfl | h
    · rfl
    · exact ih i s h

theorem mem_transitions_bind (hp : p.runWith apply i s = (.ok a, s'))
    (ht : t ∈ (f a).transitions apply i s') : t ∈ (p.bind f).transitions apply i s := by
  rw [transitions_bind, hp]
  exact List.mem_append_right _ ht

theorem mem_transitions_bind_left (ht : t ∈ p.transitions apply i s) : t ∈ (p.bind f).transitions apply i s := by
  rw [transitions_bind]
  exact List.mem_append_left _ ht

theorem mem_transitions_handle (ht : t ∈ p.transitions apply i s) : t ∈ (p.handle h).transitions apply i s := by
  induction p generalizing s with
  | ret a => cases ht
  | raise e => cases ht
  | act c n ih =>
    rcases List.mem_cons.mp ht with rfl | ht
    · exact List.mem_cons_self
    · exact List.mem_cons_of_mem _ (ih i s ht)

theorem transitions_handle (hp : p.runWith apply i s = (.ok a, s')) :
    (p.handle h).transitions apply i s = p.transitions apply i s := by
  induction p generalizing s with
  | ret a => rfl
  | raise e => cases hp
  | act c n ih => exact congrArg _ (ih i s hp)

theorem mem_transitions_settle {stop : ι → Option ε}
    (hs : stop i = none) (ht : t ∈ p.transitions apply i s) : t ∈ (p.settle stop).transitions apply i s := by
  induction p generalizing s with
  | ret a => cases ht
  | raise e => cases ht
  | act c n ih =>
    rcases List.mem_cons.mp ht with rfl | ht
    · exact List.mem_cons_self
    · simp only [settle, transitions, hs]
      exact List.mem_cons_of_mem _ (ih i s ht)

section
variable {i : ι} (is : List ι)

@[simp] theorem Ran.after_nil (r : Ran κ ι σ ε α) : r.after [] = r := rfl

@[simp] theorem Ran.after_after (r : Ran κ ι σ ε α) (later earlier : List (Transition κ ι σ)) :
    (r.after later).after earlier = r.after (earlier ++ later) := by
  simp [Ran.after]

theorem runOn_bind (p : Prog κ ι σ ε α) (f : α → Prog κ ι σ ε β) (s : σ) : (p.bind f).runOn apply i is s =
      match p.runOn apply i is s with
      | ⟨.ok a, s', rest, steps⟩ => ((f a).runOn apply i rest s').after steps
      | ⟨.error e, s', rest, steps⟩ => ⟨.error e, s', rest, steps⟩ := by
  induction p generalizing is s with
  | ret a => rfl
  | raise e => rfl
  | act c n ih =>
    rw [bind, runOn, runOn, ih]
    generalize (n (is.headD i) s).runOn apply i is.tail (apply c (is.headD i) s) = r
    obtain ⟨outcome, s', rest, steps⟩ := r
    cases outcome <;> rfl

theorem runOn_handle (p : Prog κ ι σ ε α) (h : ε → Prog κ ι σ ε α) (s : σ) : (p.handle h).runOn apply i is s =
      match p.runOn apply i is s with
      | ⟨.ok a, s', rest, steps⟩ => ⟨.ok a, s', rest, steps⟩
      | ⟨.error e, s', rest, steps⟩ => ((h e).runOn apply i rest s').after steps := by
  induction p generalizing is s with
  | ret a => rfl
  | raise e => rfl
  | act c n ih =>
    rw [handle, runOn, runOn, ih]
    generalize (n (is.headD i) s).runOn apply i is.tail (apply c (is.headD i) s) = r
    obtain ⟨outcome, s', rest, steps⟩ := r
    cases outcome <;> rfl

end

end Alone

end Prog

end AsyncScheduler
