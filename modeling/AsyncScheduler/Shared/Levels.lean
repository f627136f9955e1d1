import Mathlib.Data.Finite.Defs
import Mathlib.Data.Fintype.List
import Mathlib.Data.List.Chain
import Mathlib.Logic.Relation
import Mathlib.Order.WellFounded
import Mathlib.Order.WellFoundedSet
import Mathlib.Tactic.Common

/-!
# Levels of a dependency graph

Nodes with lists of dependencies, which can repeat, be unknown or form cycles.
-/

namespace AsyncScheduler

open Relation

variable {α : Type} (nodes : List α) (deps : α → List α)

def upTo : ℕ → Set α
  | 0 => ∅
  | k + 1 => {x | x ∈ nodes ∧ ∀ d ∈ deps x, d ∈ upTo k}

/-- `x` depends on `d`. -/
def Needs (x d : α) : Prop := d ∈ deps x

variable {nodes deps} {x y : α} {k n : ℕ}

theorem mem_nodes_of_mem_upTo (h : x ∈ upTo nodes deps k) : x ∈ nodes := by
  cases k with
  | zero => cases h
  | succ k => exact h.1

theorem upTo_succ_of_mem (h : x ∈ upTo nodes deps k) : x ∈ upTo nodes deps (k + 1) := by
  induction k generalizing x with
  | zero => cases h
  | succ k ih => exact ⟨h.1, fun d hd => ih (h.2 d hd)⟩

theorem upTo_mono {l : ℕ} (hkl : k ≤ l) (h : x ∈ upTo nodes deps k) : x ∈ upTo nodes deps l := by
  induction hkl with
  | refl => exact h
  | step _ ih => exact upTo_succ_of_mem ih

theorem upTo_stable (h : ∀ x, x ∈ upTo nodes deps (k + 1) → x ∈ upTo nodes deps k) (l : ℕ) :
    x ∈ upTo nodes deps l → x ∈ upTo nodes deps k := by
  induction l generalizing x with
  | zero => exact fun hx => absurd hx (Set.notMem_empty x)
  | succ l ih => exact fun hx => h x ⟨hx.1, fun d hd => ih (hx.2 d hd)⟩

theorem length_le_of_chain (hx : x ∈ upTo nodes deps (k + 1)) {path : List α}
    (hp : (x :: path).IsChain (Needs deps)) : path.length ≤ k := by
  induction path generalizing x k with
  | nil => exact Nat.zero_le k
  | cons d path ih =>
    obtain ⟨hxd, hr⟩ := List.isChain_cons_cons.mp hp
    have hd : d ∈ upTo nodes deps k := hx.2 d hxd
    cases k with
    | zero => cases hd
    | succ k =>
      have hl := ih hd hr
      simp only [List.length_cons]
      omega

theorem exists_chain (hx : x ∈ upTo nodes deps (k + 1)) (hn : x ∉ upTo nodes deps k) :
    ∃ path : List α, (x :: path).IsChain (Needs deps) ∧ path.length = k := by
  induction k generalizing x with
  | zero => exact ⟨[], List.isChain_singleton x, rfl⟩
  | succ k ih =>
    obtain ⟨d, hd, hdn⟩ : ∃ d ∈ deps x, d ∉ upTo nodes deps k := by
      by_contra ha
      push Not at ha
      exact hn ⟨hx.1, ha⟩
    obtain ⟨path, hp, hl⟩ := ih (hx.2 d hd) hdn
    exact ⟨d :: path, List.isChain_cons_cons.mpr ⟨hd, hp⟩, congrArg Nat.succ hl⟩

theorem exists_lower (hx : x ∈ upTo nodes deps k) (h : TransGen (Needs deps) x y) :
    ∃ l < k, y ∈ upTo nodes deps l := by
  induction h with
  | single hd =>
    cases k with
    | zero => cases hx
    | succ k => exact ⟨k, Nat.lt_succ_self k, hx.2 _ hd⟩
  | tail _ hd ih =>
    obtain ⟨l, hl, hy⟩ := ih
    cases l with
    | zero => cases hy
    | succ l => exact ⟨l, by omega, hy.2 _ hd⟩

theorem not_needs_self (hx : x ∈ upTo nodes deps k) : ¬ TransGen (Needs deps) x x := by
  intro hc
  induction k using Nat.strong_induction_on with
  | _ k ih =>
    obtain ⟨l, hl, hxl⟩ := exists_lower hx hc
    exact ih l hl hxl

theorem exists_upTo_forall {ds : List α} (h : ∀ d ∈ ds, ∃ k, d ∈ upTo nodes deps k) :
    ∃ k, ∀ d ∈ ds, d ∈ upTo nodes deps k := by
  induction ds with
  | nil => exact ⟨0, fun d hd => absurd hd List.not_mem_nil⟩
  | cons d ds ih =>
    obtain ⟨k, hk⟩ := h d List.mem_cons_self
    obtain ⟨l, hl⟩ := ih fun e he => h e (List.mem_cons_of_mem d he)
    refine ⟨max k l, List.forall_mem_cons.mpr ⟨upTo_mono (Nat.le_max_left k l) hk, fun e he => ?_⟩⟩
    exact upTo_mono (Nat.le_max_right k l) (hl e he)

/-- With finitely many nodes and no cycle in reach, going down the dependencies ends. -/
theorem exists_upTo (hx : x ∈ nodes)
    (hg : ∀ y, TransGen (Needs deps) x y → y ∈ nodes ∧ ¬ TransGen (Needs deps) y y) :
    ∃ k, x ∈ upTo nodes deps k := by
  by_cases hs : TransGen (Needs deps) x x
  · exact absurd hs (hg x hs).2
  -- The nodes that `x` needs, and `x`, under "is needed by"
  let below : {y // y ∈ nodes} → {y // y ∈ nodes} → Prop := fun a b =>
    TransGen (Needs deps) b.1 a.1 ∧ (TransGen (Needs deps) x b.1 ∨ b.1 = x)
  have ht : IsTrans _ below := ⟨fun a b c hab hbc => ⟨hbc.1.trans hab.1, hbc.2⟩⟩
  have hi : Std.Irrefl below := ⟨by
    rintro ⟨a, ha⟩ ⟨hc, hr | heq⟩
    · exact (hg a hr).2 hc
    · exact hs (heq ▸ hc)⟩
  have hf : Finite {y // y ∈ nodes} := List.finite_toSet nodes
  have hwf : WellFounded below := Finite.wellFounded_of_trans_of_irrefl below
  have hl : ∀ a : {y // y ∈ nodes}, (TransGen (Needs deps) x a.1 ∨ a.1 = x) → ∃ k, a.1 ∈ upTo nodes deps k := by
    intro a
    induction a using hwf.induction with
    | _ a ih =>
      intro hr
      have hde : ∀ d ∈ deps a.1, ∃ k, d ∈ upTo nodes deps k := by
        intro d hd
        have hn : TransGen (Needs deps) x d := by
          rcases hr with hr | heq
          · exact hr.tail hd
          · exact .single (heq ▸ hd)
        exact ih ⟨d, (hg d hn).1⟩ ⟨.single hd, hr⟩ (.inl hn)
      obtain ⟨k, hk⟩ := exists_upTo_forall hde
      exact ⟨k + 1, a.2, hk⟩
  exact hl ⟨x, hx⟩ (.inr rfl)

theorem exists_upTo_iff : (∃ k, x ∈ upTo nodes deps k) ↔
    x ∈ nodes ∧ ∀ y, TransGen (Needs deps) x y → y ∈ nodes ∧ ¬ TransGen (Needs deps) y y := by
  constructor
  · rintro ⟨k, hx⟩
    refine ⟨mem_nodes_of_mem_upTo hx, fun y hy => ?_⟩
    obtain ⟨l, -, hyl⟩ := exists_lower hx hy
    exact ⟨mem_nodes_of_mem_upTo hyl, not_needs_self hyl⟩
  · rintro ⟨hx, hg⟩
    exact exists_upTo hx hg

end AsyncScheduler
