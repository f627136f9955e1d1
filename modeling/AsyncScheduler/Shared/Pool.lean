import Mathlib.Algebra.BigOperators.Group.List.Basic
import Mathlib.Algebra.Order.Monoid.Unbundled.Basic
import Mathlib.Algebra.Order.Monoid.Prod
import Mathlib.Data.Prod.Lex
import Mathlib.Logic.Relation
import Mathlib.Tactic.Common

/-!
# Tasks under a semaphore

A pool is a list of tasks and the number of free permits of a semaphore.
-/

namespace AsyncScheduler
open List

structure Pool (τ : Type) where
  free : Nat
  tasks : List τ

/-- How tasks behave: what a task does when it is resumed with an input, whether it holds a permit,
and whether it has ended. -/
structure Crew (σ τ ι : Type) where
  resume : ι → τ → σ → Option (τ × σ)
  holds : τ → Bool
  ended : τ → Bool

namespace Crew
variable {σ τ ι : Type} (F : Crew σ τ ι)

def held (p : Pool τ) : Nat := p.tasks.countP F.holds

def turn (j : Nat) (i : ι) (p : Pool τ) (s : σ) : Option (Pool τ × σ) :=
  match p.tasks[j]? with
  | none => none
  | some t =>
    match F.resume i t s with
    | none => none
    | some (t', s') =>
      if F.holds t' = true ∧ F.holds t = false ∧ p.free = 0 then none
      else some (⟨p.free + (F.holds t).toNat - (F.holds t').toNat, p.tasks.set j t'⟩, s')

variable {F} {j : Nat} {i : ι} {p p' : Pool τ} {s s' : σ}

theorem turn_eq_some : F.turn j i p s = some (p', s') ↔ ∃ before t after t',
    p.tasks = before ++ t :: after ∧ before.length = j ∧ F.resume i t s = some (t', s') ∧
    (F.holds t' = true → F.holds t = false → 0 < p.free) ∧
    p' = ⟨p.free + (F.holds t).toNat - (F.holds t').toNat, before ++ t' :: after⟩ := by
  constructor
  · intro h
    unfold turn at h
    split at h
    · cases h
    · next t ht =>
      obtain ⟨hlt, rfl⟩ := List.getElem?_eq_some_iff.mp ht
      split at h
      · cases h
      · next t' u hr =>
        split at h
        · cases h
        · next hf =>
          obtain ⟨rfl, rfl⟩ := Prod.mk.inj (Option.some.inj h)
          refine ⟨p.tasks.take j, p.tasks[j], p.tasks.drop (j + 1), t', ?_, ?_, hr, fun h' ht' => ?_, ?_⟩
          · rw [← drop_eq_getElem_cons hlt, take_append_drop]
          · rw [length_take]
            omega
          · by_contra hz
            exact hf ⟨h', ht', by omega⟩
          · rw [set_eq_take_append_cons_drop, if_pos hlt]
  · rintro ⟨before, t, after, t', hta, rfl, hr, hf, rfl⟩
    have ht : p.tasks[before.length]? = some t := by simp [hta]
    have hg : ¬ (F.holds t' = true ∧ F.holds t = false ∧ p.free = 0) := by
      rintro ⟨h', ht', hz⟩
      have := hf h' ht'
      omega
    simp only [turn, ht, hr, if_neg hg]
    simp [hta]

theorem turn_tasks (h : F.turn j i p s = some (p', s')) :
    ∃ t t', p.tasks[j]? = some t ∧ F.resume i t s = some (t', s') ∧ p'.tasks = p.tasks.set j t' := by
  obtain ⟨before, t, after, t', ht, rfl, hr, -, rfl⟩ := turn_eq_some.mp h
  exact ⟨t, t', by simp [ht], hr, by simp [ht]⟩

theorem turn_capacity (h : F.turn j i p s = some (p', s')) : p'.free + F.held p' = p.free + F.held p := by
  obtain ⟨before, t, after, t', hta, -, -, hf, rfl⟩ := turn_eq_some.mp h
  simp only [held, hta, countP_append, countP_cons]
  cases ht : F.holds t <;> cases ht' : F.holds t'
  · simp
  · have := hf ht' ht
    simp
    omega
  · simp
    omega
  · simp

/-- As long as a task has not ended, some task can have its turn: those that hold a permit can always
go on, and when nobody holds one there is a free permit. -/
theorem exists_turn {A : τ → ι → Prop} (hp : 0 < p.free + F.held p)
    (hhe : ∀ t, F.holds t = true → F.ended t = false)
    (hl : ∀ t ∈ p.tasks, F.ended t = false → ∃ i t' s', A t i ∧ F.resume i t s = some (t', s'))
    (hs : ∃ t ∈ p.tasks, F.ended t = false) :
    ∃ j i t p' s', p.tasks[j]? = some t ∧ A t i ∧ F.turn j i p s = some (p', s') := by
  have hgo : ∀ t ∈ p.tasks, F.ended t = false → (0 < p.free ∨ F.holds t = true) →
      ∃ j i t p' s', p.tasks[j]? = some t ∧ A t i ∧ F.turn j i p s = some (p', s') := by
    intro t ht he hok
    obtain ⟨i, t', s', ha, hr⟩ := hl t ht he
    obtain ⟨before, after, hta⟩ := append_of_mem ht
    refine ⟨before.length, i, t, _, s', by simp [hta], ha,
      turn_eq_some.mpr ⟨before, t, after, t', hta, rfl, hr, ?_, rfl⟩⟩
    intro _ hh
    rcases hok with hf | htr
    · exact hf
    · rw [hh] at htr
      cases htr
  rcases Nat.eq_zero_or_pos p.free with hz | hpos
  · have hc : 0 < p.tasks.countP F.holds := by
      unfold held at hp
      omega
    obtain ⟨t, ht, hh⟩ := countP_pos_iff.mp hc
    exact hgo t ht (hhe t hh) (.inr hh)
  · obtain ⟨t, ht, he⟩ := hs
    exact hgo t ht he (.inl hpos)

end Crew

/-- Tasks in waves: which tasks a wave consists of, and which ended tasks stop the run. -/
structure ForkJoin (σ τ ι ω : Type) extends Crew σ τ ι where
  spawn : ω → List τ
  stops : τ → Bool

namespace ForkJoin

/-- The tasks of earlier waves are kept; the verdict says whether all waves ran. -/
structure State (σ τ ω : Type) where
  shared : σ
  pool : Pool τ
  past : List τ := []
  todo : List ω
  verdict : Option Bool := none

inductive Move (ι : Type) where
  | turn (j : Nat) (i : ι)
  -- All tasks of the wave have ended
  | gathered

variable {σ τ ι ω : Type} (F : ForkJoin σ τ ι ω)

def start (shared : σ) (limit : Nat) : List ω → State σ τ ω
  | [] => { shared, pool := ⟨limit, []⟩, todo := [], verdict := some true }
  | w :: rest => { shared, pool := ⟨limit, F.spawn w⟩, todo := rest }

def gather (s : State σ τ ω) : State σ τ ω :=
  if s.pool.tasks.any F.stops then { s with verdict := some false }
  else
    match s.todo with
    | [] => { s with verdict := some true }
    | w :: rest =>
      { s with pool := ⟨s.pool.free, F.spawn w⟩, past := s.past ++ s.pool.tasks, todo := rest }

def step : Move ι → State σ τ ω → Option (State σ τ ω)
  | .turn j i, s => (F.turn j i s.pool s.shared).map fun r => { s with pool := r.1, shared := r.2 }
  | .gathered, s => if s.verdict = none ∧ s.pool.tasks.all F.ended then some (F.gather s) else none

def run (s : State σ τ ω) (moves : List (Move ι)) : Option (State σ τ ω) := moves.foldlM (fun s m => F.step m s) s

/-- One move, in which the task that has its turn is resumed with an input that is allowed for it. -/
def Next (A : τ → ι → Prop) (s s' : State σ τ ω) : Prop :=
  ∃ m, (∀ j i t, m = .turn j i → s.pool.tasks[j]? = some t → A t i) ∧ F.step m s = some s'

abbrev Reach (A : τ → ι → Prop) : State σ τ ω → State σ τ ω → Prop := Relation.ReflTransGen (F.Next A)

/-- Every task of the run: those of the waves to come are still as they are created. -/
def State.all (s : State σ τ ω) : List τ := s.past ++ s.pool.tasks ++ s.todo.flatMap F.spawn

variable {F} {A : τ → ι → Prop} {s s' : State σ τ ω}

theorem next_cases (h : F.Next A s s') :
    (∃ j i t t' before after shared, A t i ∧ s.pool.tasks = before ++ t :: after ∧
      F.resume i t s.shared = some (t', shared) ∧
      F.turn j i s.pool s.shared = some (s'.pool, shared) ∧ s'.pool.tasks = before ++ t' :: after ∧
      s' = { s with pool := s'.pool, shared := shared }) ∨
    (s.verdict = none ∧ (∀ t ∈ s.pool.tasks, F.ended t = true) ∧ s' = F.gather s) := by
  obtain ⟨m, ha, hs⟩ := h
  cases m with
  | turn j i =>
    left
    obtain ⟨⟨p', shared⟩, htu, rfl⟩ := Option.map_eq_some_iff.mp hs
    obtain ⟨before, t, after, t', ht, hl, hre, -, rfl⟩ := Crew.turn_eq_some.mp htu
    refine ⟨j, i, t, t', before, after, shared, ha j i t rfl ?_, ht, hre, htu, rfl, rfl⟩
    simp [ht, ← hl]
  | gathered =>
    right
    by_cases hr : s.verdict = none ∧ s.pool.tasks.all F.ended = true
    · rw [step, if_pos hr] at hs
      exact ⟨hr.1, all_eq_true.mp hr.2, (Option.some.inj hs).symm⟩
    · rw [step, if_neg hr] at hs
      cases hs

theorem gather_cases (F : ForkJoin σ τ ι ω) (s : State σ τ ω) :
    ((∃ t ∈ s.pool.tasks, F.stops t = true) ∧ F.gather s = { s with verdict := some false }) ∨
    (∀ t ∈ s.pool.tasks, F.stops t = false) ∧ ((s.todo = [] ∧ F.gather s = { s with verdict := some true }) ∨
        ∃ w rest, s.todo = w :: rest ∧ F.gather s =
          { s with pool := ⟨s.pool.free, F.spawn w⟩, past := s.past ++ s.pool.tasks, todo := rest }) := by
  by_cases hs : s.pool.tasks.any F.stops = true
  · left
    exact ⟨any_eq_true.mp hs, by rw [gather, if_pos hs]⟩
  · right
    refine ⟨fun t ht => ?_, ?_⟩
    · have hn := any_eq_false.mp (Bool.eq_false_iff.mpr hs) t ht
      exact Bool.eq_false_iff.mpr hn
    · cases hto : s.todo with
      | nil => exact .inl ⟨rfl, by rw [gather, if_neg hs, hto]⟩
      | cons w rest => exact .inr ⟨w, rest, rfl, by rw [gather, if_neg hs, hto]⟩

@[simp] theorem gather_shared : (F.gather s).shared = s.shared := by
  rcases gather_cases F s with ⟨-, h⟩ | ⟨-, ⟨-, h⟩ | ⟨w, rest, -, h⟩⟩ <;> rw [h]

@[simp] theorem gather_all : (F.gather s).all F = s.all F := by
  rcases gather_cases F s with ⟨-, h⟩ | ⟨-, ⟨-, h⟩ | ⟨w, rest, htodo, h⟩⟩
  · rw [h]
    rfl
  · rw [h]
    rfl
  · rw [h]
    simp [State.all, htodo]

theorem reach_invariant {I : State σ τ ω → Prop} (hst : ∀ s s', F.Next A s s' → I s → I s')
    (h : F.Reach A s s') (hs : I s) : I s' := by
  induction h with
  | refl => exact hs
  | tail _ hn ih => exact hst _ _ hn ih

theorem reach_of_run {moves : List (Move ι)} (h : F.run s moves = some s')
    (ha : ∀ j i t, .turn j i ∈ moves → A t i) : F.Reach A s s' := by
  induction moves generalizing s with
  | nil =>
    obtain rfl : s = s' := Option.some.inj h
    exact .refl
  | cons m moves ih =>
    obtain ⟨mid, hmi, hr⟩ := Option.bind_eq_some_iff.mp h
    refine .head ⟨m, fun j i t hm _ => ha j i t (hm ▸ mem_cons_self), hmi⟩ (ih hr ?_)
    exact fun j i t hme => ha j i t (mem_cons_of_mem m hme)

/-- Tasks start without a permit, give theirs back before they end, and are not resumed after that. -/
structure Fair (F : ForkJoin σ τ ι ω) : Prop where
  spawned : ∀ w, ∀ t ∈ F.spawn w, F.holds t = false
  ended : ∀ t, F.holds t = true → F.ended t = false
  final : ∀ i t s, F.ended t = true → F.resume i t s = none

theorem Fair.held_spawn (hF : F.Fair) (free : Nat) (w : ω) : F.held ⟨free, F.spawn w⟩ = 0 := by
  refine countP_eq_zero.mpr fun t ht => ?_
  rw [hF.spawned w t ht]
  exact Bool.false_ne_true

theorem start_capacity (hF : F.Fair) (shared : σ) (limit : Nat) (waves : List ω) :
    (F.start shared limit waves).pool.free + F.held (F.start shared limit waves).pool = limit := by
  cases waves with
  | nil => rfl
  | cons w rest =>
    change limit + F.held ⟨limit, F.spawn w⟩ = limit
    rw [hF.held_spawn]
    rfl

theorem next_capacity (hF : F.Fair) (h : F.Next A s s') :
    s'.pool.free + F.held s'.pool = s.pool.free + F.held s.pool := by
  rcases next_cases h with ⟨j, i, t, t', before, after, shared, -, -, -, htu, -, -⟩ | ⟨-, he, rfl⟩
  · exact Crew.turn_capacity htu
  · rcases gather_cases F s with ⟨-, h⟩ | ⟨-, ⟨-, h⟩ | ⟨w, rest, -, h⟩⟩
    · rw [h]
    · rw [h]
    · have hh : F.held s.pool = 0 := by
        refine countP_eq_zero.mpr fun t ht hho => ?_
        have hen := he t ht
        rw [hF.ended t hho] at hen
        cases hen
      rw [h, hh]
      exact congrArg (s.pool.free + ·) (hF.held_spawn _ w)

/-- The permits of the semaphore are free or held by a task, at every moment of a run. -/
theorem reach_capacity (hF : F.Fair) (h : F.Reach A s s') :
    s'.pool.free + F.held s'.pool = s.pool.free + F.held s.pool :=
  reach_invariant (I := fun r => r.pool.free + F.held r.pool = s.pool.free + F.held s.pool)
    (fun _ _ hn hr => (next_capacity hF hn).trans hr) h rfl

theorem reach_past (h : F.Reach A s s') (hs : ∀ t ∈ s.past, F.ended t = true ∧ F.stops t = false) :
    ∀ t ∈ s'.past, F.ended t = true ∧ F.stops t = false := by
  refine reach_invariant (I := fun r => ∀ t ∈ r.past, F.ended t = true ∧ F.stops t = false) ?_ h hs
  intro r r' hn hr
  rcases next_cases hn with ⟨j, i, t, t', before, after, shared, -, -, -, -, -, h⟩ | ⟨-, he, rfl⟩
  · rw [h]
    exact hr
  · rcases gather_cases F r with ⟨-, h⟩ | ⟨hgo, ⟨-, h⟩ | ⟨w, rest, -, h⟩⟩
    · rw [h]
      exact hr
    · rw [h]
      exact hr
    · rw [h]
      intro t ht
      rcases mem_append.mp ht with ht | ht
      · exact hr t ht
      · exact ⟨he t ht, hgo t ht⟩

def Judged (F : ForkJoin σ τ ι ω) (s : State σ τ ω) : Prop :=
  ∀ b, s.verdict = some b → (∀ t ∈ s.pool.tasks, F.ended t = true) ∧
    if b then s.todo = [] ∧ ∀ t ∈ s.pool.tasks, F.stops t = false else ∃ t ∈ s.pool.tasks, F.stops t = true

theorem judged_start (shared : σ) (limit : Nat) (waves : List ω) : F.Judged (F.start shared limit waves) := by
  intro b hb
  cases waves with
  | nil =>
    obtain rfl : true = b := Option.some.inj hb
    exact ⟨fun t ht => absurd ht not_mem_nil, rfl, fun t ht => absurd ht not_mem_nil⟩
  | cons w rest => cases hb

theorem judged_next (hF : F.Fair) (h : F.Next A s s') (hs : F.Judged s) : F.Judged s' := by
  intro b hb
  rcases next_cases h with ⟨j, i, t, t', before, after, shared, -, ht, hr, -, -, heq⟩ | ⟨hn, he, rfl⟩
  · have hv : s.verdict = some b := by
      rw [heq] at hb
      exact hb
    have hen := (hs b hv).1 t (by simp [ht])
    rw [hF.final i t s.shared hen] at hr
    cases hr
  · rcases gather_cases F s with ⟨hst, h⟩ | ⟨hgo, ⟨hto, h⟩ | ⟨w, rest, -, h⟩⟩
    · rw [h] at hb ⊢
      obtain rfl : false = b := Option.some.inj hb
      exact ⟨he, hst⟩
    · rw [h] at hb ⊢
      obtain rfl : true = b := Option.some.inj hb
      exact ⟨he, hto, hgo⟩
    · rw [h] at hb
      rw [hn] at hb
      cases hb

theorem reach_judged (hF : F.Fair) (h : F.Reach A s s') (hs : F.Judged s) : F.Judged s' :=
  reach_invariant (I := F.Judged) (fun _ _ hn hr => judged_next hF hn hr) h hs

theorem exists_next (hF : F.Fair) (hv : s.verdict = none) (hp : 0 < s.pool.free + F.held s.pool)
    (hl : ∀ t ∈ s.pool.tasks, F.ended t = false →
      ∃ i t' shared, A t i ∧ F.resume i t s.shared = some (t', shared)) : ∃ s', F.Next A s s' := by
  by_cases hs : ∃ t ∈ s.pool.tasks, F.ended t = false
  · obtain ⟨j, i, t, p', shared, ht, ha, htu⟩ := Crew.exists_turn hp hF.ended hl hs
    refine ⟨{ s with pool := p', shared := shared }, .turn j i, ?_, by rw [step, htu]; rfl⟩
    rintro j' i' u hm hu
    obtain ⟨rfl, rfl⟩ := Move.turn.inj hm
    obtain rfl : t = u := Option.some.inj (ht.symm.trans hu)
    exact ha
  · refine ⟨F.gather s, .gathered, fun j i t hm => (by cases hm), ?_⟩
    rw [step, if_pos]
    refine ⟨hv, all_eq_true.mpr fun t ht => ?_⟩
    by_contra he
    exact hs ⟨t, ht, Bool.eq_false_iff.mpr he⟩

section Rank
variable {M : Type} [AddCommMonoid M] [PartialOrder M] [IsOrderedCancelAddMonoid M] [WellFoundedLT M]

/-- If every turn lowers the rank of the task that has it, there is no run without end: between two
turns the run can only go on to the next wave. -/
theorem next_wellFounded (rank : τ → M)
    (hr : ∀ i t s t' s', A t i → F.resume i t s = some (t', s') → rank t' < rank t) :
    WellFounded fun s' s => F.Next A s s' := by
  let measure : State σ τ ω → M × ℕ := fun s =>
    (((s.all F).map rank).sum, s.todo.length + if s.verdict = none then 1 else 0)
  refine Subrelation.wf ?_ (InvImage.wf measure (WellFounded.prod_lex wellFounded_lt wellFounded_lt))
  intro s' s h
  rcases next_cases h with ⟨j, i, t, t', before, after, shared, ha, ht, hre, -, ht', heq⟩ | ⟨hn, -, rfl⟩
  · apply Prod.Lex.left
    have hal : s'.all F = (s.past ++ before) ++ t' :: (after ++ s.todo.flatMap F.spawn) := by
      rw [heq, State.all]
      simp [ht']
    have ha' : s.all F = (s.past ++ before) ++ t :: (after ++ s.todo.flatMap F.spawn) := by
      simp [State.all, ht]
    rw [hal, ha']
    simp only [map_append, map_cons, sum_append, sum_cons]
    have hlt := hr i t s.shared t' shared ha hre
    gcongr
  · have hs : (((F.gather s).all F).map rank).sum = ((s.all F).map rank).sum := by rw [gather_all]
    have hl : (F.gather s).todo.length + (if (F.gather s).verdict = none then 1 else 0) <
        s.todo.length + if s.verdict = none then 1 else 0 := by
      rcases gather_cases F s with ⟨-, h⟩ | ⟨-, ⟨-, h⟩ | ⟨w, rest, hto, h⟩⟩
      · simp [h, hn]
      · simp [h, hn]
      · simp [h, hn, hto]
    change Prod.Lex (· < ·) (· < ·) _ _
    dsimp only [measure]
    rw [hs]
    exact Prod.Lex.right _ hl

end Rank

section Labels
variable {ν : Type} (label : τ → ν)
  (hlabel : ∀ i t s t' s', F.resume i t s = some (t', s') → label t' = label t)
include hlabel

theorem next_labels (h : F.Next A s s') : (s'.all F).map label = (s.all F).map label := by
  rcases next_cases h with ⟨j, i, t, t', before, after, shared, -, ht, hr, -, ht', heq⟩ | ⟨-, -, rfl⟩
  · rw [heq]
    simp [State.all, ht, ht', hlabel i t s.shared t' shared hr]
  · rw [gather_all]

theorem reach_labels (h : F.Reach A s s') : (s'.all F).map label = (s.all F).map label :=
  reach_invariant (I := fun r => (r.all F).map label = (s.all F).map label)
    (fun _ _ hn hr => (next_labels label hlabel hn).trans hr) h rfl

omit hlabel in
/-- A property of each task and the shared state: a turn must keep it for the task that has the turn,
and for every other task. -/
theorem next_tasks {P : τ → σ → Prop} (h : F.Next A s s') (hd : ((s.all F).map label).Nodup)
    (how : ∀ i t t' sh, t ∈ s.pool.tasks → A t i → P t s.shared → F.resume i t s.shared = some (t', sh) → P t' sh)
    (ho : ∀ i t t' sh u, t ∈ s.pool.tasks → A t i → P t s.shared → u ∈ s.all F → label u ≠ label t →
      P u s.shared → F.resume i t s.shared = some (t', sh) → P u sh)
    (hs : ∀ t ∈ s.all F, P t s.shared) : ∀ t ∈ s'.all F, P t s'.shared := by
  rcases next_cases h with ⟨j, i, t, t', before, after, shared, ha, ht, hr, -, ht', heq⟩ | ⟨-, -, rfl⟩
  · have hal : s'.all F = (s.past ++ before) ++ t' :: (after ++ s.todo.flatMap F.spawn) := by
      rw [heq, State.all]
      simp [ht']
    have ha' : s.all F = (s.past ++ before) ++ t :: (after ++ s.todo.flatMap F.spawn) := by
      simp [State.all, ht]
    have hm : t ∈ s.pool.tasks := by simp [ht]
    have hPt := hs t (by simp [ha'])
    have hsh : s'.shared = shared := by rw [heq]
    rw [hal, hsh]
    intro u hu
    have hc : u = t' ∨ u ∈ (s.past ++ before) ++ (after ++ s.todo.flatMap F.spawn) := by
      simp only [mem_append, mem_cons] at hu ⊢
      tauto
    rcases hc with rfl | hu
    · exact how i t u shared hm ha hPt hr
    · have hne : label u ≠ label t := by
        rw [ha', map_append, map_cons] at hd
        have hou := (nodup_cons.mp (perm_middle.nodup_iff.mp hd)).1
        intro hsa
        refine hou ?_
        rw [← map_append, ← hsa]
        exact mem_map_of_mem hu
      have hm' : u ∈ s.all F := by
        rw [ha']
        simp only [mem_append, mem_cons] at hu ⊢
        tauto
      exact ho i t t' shared u hm ha hPt hm' hne (hs u hm') hr
  · rw [gather_all, gather_shared]
    exact hs

theorem reach_tasks {P : τ → σ → Prop} (h : F.Reach A s s') (hd : ((s.all F).map label).Nodup)
    (how : ∀ r, F.Reach A s r → F.Reach A r s' → ∀ i t t' sh, t ∈ r.pool.tasks → A t i → P t r.shared →
      F.resume i t r.shared = some (t', sh) → P t' sh)
    (ho : ∀ r, F.Reach A s r → F.Reach A r s' → ∀ i t t' sh u, t ∈ r.pool.tasks → A t i → P t r.shared →
      u ∈ r.all F → label u ≠ label t → P u r.shared → F.resume i t r.shared = some (t', sh) → P u sh)
    (hs : ∀ t ∈ s.all F, P t s.shared) : ∀ t ∈ s'.all F, P t s'.shared := by
  have hway : ∀ r, F.Reach A s r → F.Reach A r s' → ∀ t ∈ r.all F, P t r.shared := by
    intro r hr
    induction hr with
    | refl => exact fun _ => hs
    | @tail r _ hr hn ih =>
      intro hend
      have hrest := hend.head hn
      refine next_tasks label hn ?_ (how r hr hrest) (ho r hr hrest) (ih hrest)
      rw [reach_labels label hlabel hr]
      exact hd
  exact hway s' h .refl

/-- Where a run stands: the waves behind it, the one it is in, and those to come. -/
theorem reach_position {waves : List ω} {shared : σ} {limit : Nat} (hw : waves ≠ [])
    (h : F.Reach A (F.start shared limit waves) s) : ∃ passed w, waves = passed ++ w :: s.todo ∧
      s.past.map label = passed.flatMap (fun w => (F.spawn w).map label) ∧
      s.pool.tasks.map label = (F.spawn w).map label := by
  refine reach_invariant (I := fun s => ∃ passed w, waves = passed ++ w :: s.todo ∧
      s.past.map label = passed.flatMap (fun w => (F.spawn w).map label) ∧
      s.pool.tasks.map label = (F.spawn w).map label) ?_ h ?_
  · rintro s s' hn ⟨passed, w, hs, hp, hpo⟩
    rcases next_cases hn with ⟨j, i, t, t', before, after, shared, -, ht, hr, -, ht', heq⟩ | ⟨-, -, rfl⟩
    · refine ⟨passed, w, ?_, ?_, ?_⟩
      · rw [heq]
        exact hs
      · rw [heq]
        exact hp
      · rw [← hpo, ht, ht']
        simp [hlabel i t s.shared t' shared hr]
    · rcases gather_cases F s with ⟨-, h⟩ | ⟨-, ⟨-, h⟩ | ⟨w', rest, hto, h⟩⟩
      · rw [h]
        exact ⟨passed, w, hs, hp, hpo⟩
      · rw [h]
        exact ⟨passed, w, hs, hp, hpo⟩
      · rw [h]
        refine ⟨passed ++ [w], w', ?_, ?_, rfl⟩
        · rw [hs, hto]
          simp
        · simp [hp, hpo]
  · cases waves with
    | nil => exact absurd rfl hw
    | cons w rest => exact ⟨[], w, rfl, rfl, rfl⟩

end Labels

end ForkJoin

end AsyncScheduler
