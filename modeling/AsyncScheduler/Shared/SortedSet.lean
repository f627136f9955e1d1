import Mathlib.Data.List.Sort
import Mathlib.Data.List.Nodup
import Mathlib.Tactic.Common

/-!
# Sorted sets

A finite map from members to scores, kept as the list of its entries in increasing order of score
and, at equal scores, of member.
-/

namespace AsyncScheduler
open List

universe u v
variable {μ : Type u} {σ : Type v} [LinearOrder μ] [LinearOrder σ]

def AtMost (a b : μ × σ) : Prop := a.2 < b.2 ∨ (a.2 = b.2 ∧ a.1 ≤ b.1)

instance : DecidableRel (AtMost (μ := μ) (σ := σ)) :=
  fun a b => inferInstanceAs (Decidable (a.2 < b.2 ∨ (a.2 = b.2 ∧ a.1 ≤ b.1)))

instance : Std.Total (AtMost (μ := μ) (σ := σ)) where
  total a b := by
    rcases lt_trichotomy a.2 b.2 with h | h | h
    · exact .inl (.inl h)
    · rcases le_total a.1 b.1 with hm | hm
      · exact .inl (.inr ⟨h, hm⟩)
      · exact .inr (.inr ⟨h.symm, hm⟩)
    · exact .inr (.inl h)

instance : IsTrans (μ × σ) AtMost where
  trans a b c hab hbc := by
    rcases hab with hab | ⟨hab, hm⟩
    · rcases hbc with hbc | ⟨hbc, _⟩
      · exact .inl (hab.trans hbc)
      · exact .inl (hbc ▸ hab)
    · rcases hbc with hbc | ⟨hbc, hm'⟩
      · exact .inl (hab ▸ hbc)
      · exact .inr ⟨hab.trans hbc, hm.trans hm'⟩

structure SortedSet (μ : Type u) (σ : Type v) [LinearOrder μ] [LinearOrder σ] where
  entries : List (μ × σ)
  ordered : entries.Pairwise AtMost
  distinct : (entries.map Prod.fst).Nodup

namespace SortedSet
variable {z : SortedSet μ σ} {m : μ} {p : μ × σ → Bool} {s : σ}

def empty : SortedSet μ σ := ⟨[], .nil, .nil⟩

instance : EmptyCollection (SortedSet μ σ) := ⟨empty⟩
instance : Inhabited (SortedSet μ σ) := ⟨empty⟩

instance : Membership μ (SortedSet μ σ) := ⟨fun z m => m ∈ z.entries.map Prod.fst⟩

instance (z : SortedSet μ σ) (m : μ) : Decidable (m ∈ z) :=
  inferInstanceAs (Decidable (m ∈ z.entries.map Prod.fst))

def card (z : SortedSet μ σ) : Nat := z.entries.length

def score (z : SortedSet μ σ) (m : μ) : Option σ := (z.entries.find? (·.1 = m)).map Prod.snd

def filter (z : SortedSet μ σ) (p : μ × σ → Bool) : SortedSet μ σ :=
  ⟨z.entries.filter p, z.ordered.filter p,
    z.distinct.sublist (filter_sublist.map Prod.fst)⟩

def remove (z : SortedSet μ σ) (m : μ) : SortedSet μ σ := z.filter (·.1 ≠ m)

def removeAll (z : SortedSet μ σ) (ms : List μ) : SortedSet μ σ := z.filter (·.1 ∉ ms)

section
variable (z)

theorem mem_iff (m : μ) : m ∈ z ↔ ∃ s, (m, s) ∈ z.entries := by
  change m ∈ z.entries.map Prod.fst ↔ _
  simp

theorem mem_filter_entries (p : μ × σ → Bool) (e : μ × σ) :
    e ∈ (z.filter p).entries ↔ e ∈ z.entries ∧ p e = true := mem_filter

theorem not_mem_remove_entries (m : μ) : m ∉ (z.remove m).entries.map Prod.fst := by
  intro h
  obtain ⟨e, he, rfl⟩ := mem_map.mp h
  have := ((mem_filter_entries z _ e).mp he).2
  simp at this

def add (z : SortedSet μ σ) (m : μ) (s : σ) : SortedSet μ σ where
  entries := (z.remove m).entries.orderedInsert AtMost (m, s)
  ordered := (z.remove m).ordered.orderedInsert (m, s) _
  distinct := by
    have hp := (perm_orderedInsert AtMost (m, s) (z.remove m).entries).map Prod.fst
    refine hp.nodup_iff.mpr ?_
    exact nodup_cons.mpr ⟨not_mem_remove_entries z m, (z.remove m).distinct⟩

theorem mem_add_entries (m : μ) (s : σ) (e : μ × σ) :
    e ∈ (z.add m s).entries ↔ e = (m, s) ∨ (e ∈ z.entries ∧ e.1 ≠ m) := by
  change e ∈ (z.remove m).entries.orderedInsert AtMost (m, s) ↔ _
  rw [(perm_orderedInsert AtMost (m, s) _).mem_iff, mem_cons]
  simp [remove, mem_filter_entries]

theorem mem_remove_entries (m : μ) (e : μ × σ) :
    e ∈ (z.remove m).entries ↔ e ∈ z.entries ∧ e.1 ≠ m := by
  simp [remove, mem_filter_entries]

theorem mem_removeAll_entries (ms : List μ) (e : μ × σ) :
    e ∈ (z.removeAll ms).entries ↔ e ∈ z.entries ∧ e.1 ∉ ms := by
  simp [removeAll, mem_filter_entries]

end

@[simp] theorem mem_empty (m : μ) : m ∉ (∅ : SortedSet μ σ) := by
  rintro h
  cases h

@[simp] theorem mem_add (z : SortedSet μ σ) (m n : μ) (s : σ) : n ∈ z.add m s ↔ n = m ∨ n ∈ z := by
  simp only [mem_iff, mem_add_entries]
  constructor
  · rintro ⟨t, h | ⟨h, _⟩⟩
    · exact .inl (congrArg Prod.fst h)
    · exact .inr ⟨t, h⟩
  · by_cases hn : n = m
    · subst n
      exact fun _ => ⟨s, .inl rfl⟩
    · rintro (h | ⟨t, h⟩)
      · exact absurd h hn
      · exact ⟨t, .inr ⟨h, hn⟩⟩

@[simp] theorem mem_remove (z : SortedSet μ σ) (m n : μ) : n ∈ z.remove m ↔ n ∈ z ∧ n ≠ m := by
  simp only [mem_iff, mem_remove_entries]
  exact ⟨fun ⟨t, h, hn⟩ => ⟨⟨t, h⟩, hn⟩, fun ⟨⟨t, h⟩, hn⟩ => ⟨t, h, hn⟩⟩

@[simp] theorem mem_removeAll (z : SortedSet μ σ) (ms : List μ) (n : μ) : n ∈ z.removeAll ms ↔ n ∈ z ∧ n ∉ ms := by
  simp only [mem_iff, mem_removeAll_entries]
  exact ⟨fun ⟨t, h, hn⟩ => ⟨⟨t, h⟩, hn⟩, fun ⟨⟨t, h⟩, hn⟩ => ⟨t, h, hn⟩⟩

theorem card_eq_zero_iff (z : SortedSet μ σ) : z.card = 0 ↔ ∀ m, m ∉ z := by
  constructor
  · intro h m hm
    obtain ⟨s, hs⟩ := (mem_iff z m).mp hm
    rw [length_eq_zero_iff.mp h] at hs
    cases hs
  · intro h
    apply length_eq_zero_iff.mpr
    apply eq_nil_iff_forall_not_mem.mpr
    intro e he
    exact h e.1 ((mem_iff z e.1).mpr ⟨e.2, he⟩)

theorem eq_empty_of_card_eq_zero (h : z.card = 0) : z = ∅ := by
  cases z with
  | mk entries ordered distinct =>
    cases length_eq_zero_iff.mp h
    rfl

theorem score_eq_some_iff (z : SortedSet μ σ) (m : μ) (s : σ) : z.score m = some s ↔ (m, s) ∈ z.entries := by
  constructor
  · intro h
    obtain ⟨e, he, rfl⟩ := Option.map_eq_some_iff.mp h
    have hm : e.1 = m := by simpa using List.find?_some he
    rw [← hm]
    exact mem_of_find?_eq_some he
  · intro h
    cases hf : z.entries.find? (·.1 = m) with
    | none =>
      have := List.find?_eq_none.mp hf (m, s) h
      simp at this
    | some e =>
      have he := mem_of_find?_eq_some hf
      have hm : e.1 = m := by simpa using List.find?_some hf
      have hes : e = (m, s) := inj_on_of_nodup_map z.distinct he h hm
      simp [score, hf, hes]

theorem mem_of_score (h : z.score m = some s) : m ∈ z :=
  (mem_iff z m).mpr ⟨s, (score_eq_some_iff z m s).mp h⟩

theorem score_of_filter (h : (z.filter p).score m = some s) : z.score m = some s := by
  have he := (score_eq_some_iff _ _ _).mp h
  exact (score_eq_some_iff _ _ _).mpr ((mem_filter_entries z p _).mp he).1

section
variable (z)

/-- The first entry of a range that passes a test has the least score of all that pass it. -/
theorem find_take_le {n : Nat} {e f : μ × σ}
    (he : (z.entries.take n).find? p = some e) (hf : f ∈ z.entries) (hp : p f = true) : e.2 ≤ f.2 := by
  have ho := z.ordered
  generalize z.entries = l at he hf ho
  induction l generalizing n with
  | nil => cases hf
  | cons a l ih =>
    obtain ⟨ha, hl⟩ := pairwise_cons.mp ho
    cases n with
    | zero => cases he
    | succ n =>
      rw [take_succ_cons, List.find?_cons] at he
      split at he
      · obtain rfl := Option.some.inj he
        rcases mem_cons.mp hf with rfl | hf
        · exact le_refl _
        · rcases ha f hf with hlt | ⟨heq, _⟩
          · exact hlt.le
          · exact heq.le
      · rename_i hfa
        rcases mem_cons.mp hf with rfl | hf
        · rw [hp] at hfa
          cases hfa
        · exact ih he hf hl

theorem map_remove_entries (m : μ) :
    (z.remove m).entries.map Prod.fst = (z.entries.map Prod.fst).erase m := by
  rw [z.distinct.erase_eq_filter, filter_map]
  refine congrArg (List.map Prod.fst) (filter_congr fun e _ => ?_)
  by_cases h : e.1 = m <;> simp [h]

theorem card_add (m : μ) (s : σ) : (z.add m s).card = if m ∈ z then z.card else z.card + 1 := by
  have ha : (z.add m s).card = ((z.entries.map Prod.fst).erase m).length + 1 := by
    rw [← map_remove_entries, length_map]
    exact orderedInsert_length AtMost _ _
  have hc : z.card = (z.entries.map Prod.fst).length := (length_map _).symm
  rw [ha, hc]
  split
  · rename_i hm
    have hpos := length_pos_of_mem (show m ∈ z.entries.map Prod.fst from hm)
    rw [length_erase_of_mem hm]
    omega
  · rename_i hm
    rw [erase_of_not_mem hm]

theorem score_add (m n : μ) (s : σ) :
    (z.add m s).score n = if n = m then some s else z.score n := by
  apply Option.ext
  intro t
  rw [score_eq_some_iff, mem_add_entries]
  split
  · rename_i hn
    subst hn
    simp [eq_comm]
  · rename_i hn
    rw [score_eq_some_iff]
    simp [hn]

theorem score_eq_none_iff (m : μ) : z.score m = none ↔ m ∉ z := by
  rw [mem_iff, Option.eq_none_iff_forall_ne_some]
  simp only [ne_eq, score_eq_some_iff, not_exists]

end

end SortedSet

end AsyncScheduler
