import Mathlib.Algebra.Order.Group.Defs
import Mathlib.Order.Basic
import Mathlib.Tactic.Common

/-!
# Leases

One key that names its holder and may have a deadline. A client takes the key when it is free, and
renews or releases it only under its own name.
-/

namespace AsyncScheduler

namespace Lease

structure State (ι T : Type) where
  clock : T
  /-- Who holds the key, and until when. -/
  holder : Option (ι × Option T)

inductive Op (ι T : Type) where
  | acquire (i : ι)
  | renew (i : ι)
  | release (i : ι)
  | pass (t : T)
  | idle

variable {ι T : Type}

def State.owner (s : State ι T) : Option ι := s.holder.map Prod.fst

theorem owner_eq_some_iff {s : State ι T} {a : ι} : s.owner = some a ↔ ∃ d, s.holder = some (a, d) := by
  unfold State.owner
  constructor
  · intro h
    obtain ⟨⟨i, d⟩, hh, rfl⟩ := Option.map_eq_some_iff.mp h
    exact ⟨d, hh⟩
  · rintro ⟨d, hh⟩
    rw [hh]
    rfl

variable [DecidableEq ι]

def grants (s : State ι T) : Op ι T → Option ι
  | .acquire i => if s.holder.isSome then none else some i
  | .renew i => if s.owner = some i then some i else none
  | _ => none

theorem grants_eq_some {s : State ι T} {op : Op ι T} {a : ι} (h : grants s op = some a) :
    (op = .acquire a ∧ s.holder = none) ∨ (op = .renew a ∧ s.owner = some a) := by
  cases op with
  | acquire i =>
    simp only [grants] at h
    split at h
    · cases h
    · rename_i hf
      cases h
      exact .inl ⟨rfl, by simpa using hf⟩
  | renew i =>
    simp only [grants] at h
    split at h
    · rename_i ho
      cases h
      exact .inr ⟨rfl, ho⟩
    · cases h
  | release i | pass t | idle => cases h

variable [AddCommGroup T] [LinearOrder T]

section
variable (ttl : ι → T)

def apply (s : State ι T) : Op ι T → State ι T
  | .acquire i => if s.holder.isSome then s else { s with holder := some (i, some (s.clock + ttl i)) }
  | .renew i =>
    if s.owner = some i then
      { s with holder := if ttl i ≤ 0 then none else some (i, some (s.clock + ttl i)) }
    else s
  | .release i => if s.owner = some i then { s with holder := none } else s
  | .pass t => if s.clock < t then ⟨t, s.holder.filter fun h => h.2.all (t < ·)⟩ else s
  | .idle => s

end

/-- What was done, newest first, each with the state that it found. -/
inductive Run (ttl : ι → T) (s₀ : State ι T) : List (Op ι T × State ι T) → State ι T → Prop
  | nil : Run ttl s₀ [] s₀
  | cons {history : List (Op ι T × State ι T)} {s : State ι T} (op : Op ι T) :
    Run ttl s₀ history s → Run ttl s₀ ((op, s) :: history) (apply ttl s op)

section
variable {ttl : ι → T} {a b : ι} {t : T} {s s₀ : State ι T} {op : Op ι T}

/-- Since `t` the client has had the key for the time it was granted, or that time is over. -/
def Guarded (ttl : ι → T) (a : ι) (t : T) (s : State ι T) : Prop :=
  t ≤ s.clock ∧ (t + ttl a ≤ s.clock ∨ ∃ d, s.holder = some (a, d) ∧ ∀ e, d = some e → t + ttl a ≤ e)

theorem over_of_grants (hg : Guarded ttl a t s) (h : grants s op = some b) (hne : a ≠ b) :
    t + ttl a ≤ s.clock := by
  rcases hg.2 with ho | ⟨d, hh, _⟩
  · exact ho
  · rcases grants_eq_some h with ⟨_, hf⟩ | ⟨_, how⟩
    · rw [hf] at hh
      cases hh
    · have ho' := owner_eq_some_iff.mpr ⟨d, hh⟩
      exact absurd (Option.some.inj (ho'.symm.trans how)) hne

theorem Run.of_append {later earlier : List (Op ι T × State ι T)} (h : Run ttl s₀ (later ++ earlier) s) :
    ∃ s', Run ttl s₀ earlier s' := by
  induction later generalizing s with
  | nil => exact ⟨s, h⟩
  | cons e later ih =>
    cases h with
    | cons op h => exact ih h

variable [IsOrderedAddMonoid T]

theorem guarded_of_grants (h : grants s op = some a) : Guarded ttl a s.clock (apply ttl s op) := by
  rcases grants_eq_some h with ⟨rfl, hf⟩ | ⟨rfl, ho⟩
  · simp only [apply, hf, Option.isSome_none, Bool.false_eq_true, if_false]
    refine ⟨le_refl _, .inr ⟨_, rfl, ?_⟩⟩
    intro e he
    cases he
    exact le_refl _
  · simp only [apply, if_pos ho]
    refine ⟨le_refl _, ?_⟩
    by_cases hl : ttl a ≤ 0
    · exact .inl (add_le_of_nonpos_right hl)
    · refine .inr ⟨some (s.clock + ttl a), if_neg hl, ?_⟩
      intro e he
      cases he
      exact le_refl _

theorem guarded_apply (hg : Guarded ttl a t s) (hop : op ≠ .release a) : Guarded ttl a t (apply ttl s op) := by
  obtain ⟨hc, hk⟩ := hg
  cases op with
  | acquire i =>
    simp only [apply]
    split
    · exact ⟨hc, hk⟩
    · rename_i hf
      refine ⟨hc, hk.imp_right ?_⟩
      rintro ⟨d, hh, _⟩
      rw [hh] at hf
      exact absurd rfl hf
  | renew i =>
    simp only [apply]
    split
    · rename_i how
      refine ⟨hc, ?_⟩
      rcases hk with ho | ⟨d, hh, hlo⟩
      · exact .inl ho
      · have hs : a = i := by
          have ho' := owner_eq_some_iff.mpr ⟨d, hh⟩
          exact Option.some.inj (ho'.symm.trans how)
        subst hs
        have hl : t + ttl a ≤ s.clock + ttl a := add_le_add_left hc (ttl a)
        by_cases hlif : ttl a ≤ 0
        · exact .inl (hl.trans (add_le_of_nonpos_right hlif))
        · refine .inr ⟨some (s.clock + ttl a), if_neg hlif, ?_⟩
          intro e he
          cases he
          exact hl
    · exact ⟨hc, hk⟩
  | release i =>
    simp only [apply]
    split
    · rename_i how
      refine ⟨hc, hk.imp_right ?_⟩
      rintro ⟨d, hh, _⟩
      have ho' := owner_eq_some_iff.mpr ⟨d, hh⟩
      obtain rfl : a = i := Option.some.inj (ho'.symm.trans how)
      exact absurd rfl hop
    · exact ⟨hc, hk⟩
  | pass t' =>
    simp only [apply]
    split
    · rename_i hl
      refine ⟨hc.trans hl.le, ?_⟩
      rcases hk with ho | ⟨d, hh, hlo⟩
      · exact .inl (ho.trans hl.le)
      · by_cases hli : d.all (t' < ·) = true
        · exact .inr ⟨d, by simp [hh, hli], hlo⟩
        · -- the deadline has come, so the granted time is over
          cases d with
          | none => exact absurd rfl hli
          | some e =>
            have hd : e ≤ t' := by simpa using hli
            exact .inl ((hlo e rfl).trans hd)
    · exact ⟨hc, hk⟩
  | idle => exact ⟨hc, hk⟩

variable {between earlier : List (Op ι T × State ι T)} {op' : Op ι T} {s' s₁ : State ι T}

theorem guarded_run (h : Run ttl s₀ (between ++ (op', s') :: earlier) s) (ha : grants s' op' = some a)
    (hk : ∀ e ∈ between, e.1 ≠ .release a) : Guarded ttl a s'.clock s := by
  induction between generalizing s with
  | nil =>
    cases h with
    | cons op h => exact guarded_of_grants ha
  | cons e between ih =>
    cases h with
    | cons op h =>
      have hb := ih h fun e' he' => hk e' (List.mem_cons_of_mem _ he')
      exact guarded_apply hb (hk _ List.mem_cons_self)

/-- A grant to another client comes after the granted time, if the client has not given the key back. -/
theorem disjoint (h : Run ttl s₀ ((op, s) :: between ++ (op', s') :: earlier) s₁)
    (ha : grants s' op' = some a) (hb : grants s op = some b) (hne : a ≠ b)
    (hk : ∀ e ∈ between, e.1 ≠ .release a) : s'.clock + ttl a ≤ s.clock := by
  cases h with
  | cons op h => exact over_of_grants (guarded_run h ha hk) hb hne

end

end Lease

end AsyncScheduler
