import Mathlib.Data.List.Dedup
import Mathlib.Data.List.Perm.Subperm
import Mathlib.Tactic.Common

/-!
# Tables with a primary key

Rows in insertion order.
-/

namespace AsyncScheduler
open List

universe u v

structure Table (ρ : Type u) (κ : Type v) (key : ρ → κ) where
  rows : List ρ
  distinct : (rows.map key).Nodup

namespace Table
variable {ρ : Type u} {κ : Type v} {key : ρ → κ}

def empty : Table ρ κ key := ⟨[], nodup_nil⟩

instance : EmptyCollection (Table ρ κ key) := ⟨empty⟩
instance : Inhabited (Table ρ κ key) := ⟨empty⟩

def modify (t : Table ρ κ key) (f : ρ → ρ) (hf : ∀ r, key (f r) = key r) : Table ρ κ key :=
  ⟨t.rows.map f, by simpa [map_map, Function.comp_def, hf] using t.distinct⟩

variable [DecidableEq κ]

def find (t : Table ρ κ key) (k : κ) : Option ρ := t.rows.find? (fun r => key r = k)

def insert (t : Table ρ κ key) (r : ρ) : Option (Table ρ κ key) :=
  if h : key r ∈ t.rows.map key then none
  else some ⟨t.rows ++ [r], by
    rw [map_append, map_singleton]
    exact t.distinct.append (nodup_singleton _) (by simpa using h)⟩

theorem find_eq_some_iff (t : Table ρ κ key) (k : κ) (r : ρ) : t.find k = some r ↔ r ∈ t.rows ∧ key r = k := by
  constructor
  · intro h
    exact ⟨mem_of_find?_eq_some h, by simpa using List.find?_some h⟩
  · rintro ⟨hr, hk⟩
    cases hf : t.find k with
    | none =>
      have := List.find?_eq_none.mp hf r hr
      simp [hk] at this
    | some s =>
      have hs := mem_of_find?_eq_some hf
      have hsk : key s = k := by simpa using List.find?_some hf
      rw [inj_on_of_nodup_map t.distinct hs hr (hsk.trans hk.symm)]

theorem find_eq_none_iff (t : Table ρ κ key) (k : κ) : t.find k = none ↔ ∀ r ∈ t.rows, key r ≠ k := by
  simp [find, List.find?_eq_none]

theorem insert_eq_some {t t' : Table ρ κ key} {r : ρ} (h : t.insert r = some t') :
    t.find (key r) = none ∧ t'.rows = t.rows ++ [r] := by
  unfold insert at h
  split at h
  · cases h
  · rename_i hk
    refine ⟨?_, by cases h; rfl⟩
    apply (find_eq_none_iff t _).mpr
    intro s hs heq
    exact hk (mem_map.mpr ⟨s, hs, heq⟩)

theorem insert_eq_none_iff (t : Table ρ κ key) (r : ρ) : t.insert r = none ↔ ∃ s, t.find (key r) = some s := by
  unfold insert
  split
  · rename_i hk
    obtain ⟨s, hs, hsk⟩ := mem_map.mp hk
    exact ⟨fun _ => ⟨s, (find_eq_some_iff t _ s).mpr ⟨hs, hsk⟩⟩, fun _ => rfl⟩
  · rename_i hk
    refine ⟨fun h => (by cases h), ?_⟩
    rintro ⟨s, hs⟩
    obtain ⟨hm, hsk⟩ := (find_eq_some_iff t _ s).mp hs
    exact absurd (mem_map.mpr ⟨s, hm, hsk⟩) hk

theorem find_insert {t t' : Table ρ κ key} {r : ρ} (h : t.insert r = some t') (k : κ) :
    t'.find k = if key r = k then some r else t.find k := by
  obtain ⟨hn, hr⟩ := insert_eq_some h
  split
  · rename_i hk
    exact (find_eq_some_iff t' k r).mpr ⟨by simp [hr], hk⟩
  · rename_i hk
    simp [find, hr, List.find?_append, hk]

theorem find_insert_of_some {t t' : Table ρ κ key} {r s : ρ} {k : κ}
    (h : t.insert r = some t') (hs : t.find k = some s) : t'.find k = some s := by
  rw [find_insert h]
  split
  · rename_i hk
    have hn := (insert_eq_some h).1
    rw [hk, hs] at hn
    cases hn
  · exact hs

@[simp] theorem find_modify (t : Table ρ κ key) (f : ρ → ρ) (hf : ∀ r, key (f r) = key r) (k : κ) :
    (t.modify f hf).find k = (t.find k).map f := by
  unfold find modify
  rw [List.find?_map]
  congr 2
  funext r
  simp [hf]

end Table

section
variable {ρ : Type u} {κ : Type v} [DecidableEq κ] {key : ρ → κ} {order : List κ} {rows : List ρ} {r : ρ}

/-- The rows of a `SELECT` without an `ORDER BY`: they come in any order, here those of `order` first. -/
def inOrder (key : ρ → κ) (order : List κ) (rows : List ρ) : List ρ :=
  order.dedup.filterMap (fun k => rows.find? (key · = k)) ++ rows.filter (key · ∉ order)

theorem mem_of_mem_inOrder (h : r ∈ inOrder key order rows) : r ∈ rows := by
  rcases mem_append.mp h with ho | hr
  · obtain ⟨k, -, hf⟩ := mem_filterMap.mp ho
    exact mem_of_find?_eq_some hf
  · exact (mem_filter.mp hr).1

theorem mem_inOrder (hn : (rows.map key).Nodup) (h : r ∈ rows) : r ∈ inOrder key order rows := by
  by_cases hk : key r ∈ order
  · refine mem_append_left _ (mem_filterMap.mpr ⟨key r, mem_dedup.mpr hk, ?_⟩)
    exact (Table.find_eq_some_iff ⟨rows, hn⟩ (key r) r).mpr ⟨h, rfl⟩
  · exact mem_append_right _ (mem_filter.mpr ⟨h, by simpa using hk⟩)

theorem nodup_inOrder (hn : (rows.map key).Nodup) : ((inOrder key order rows).map key).Nodup := by
  have hk : (order.dedup.filterMap (fun k => rows.find? (key · = k))).map key =
      order.dedup.filter fun k => (rows.find? (key · = k)).isSome := by
    induction order.dedup with
    | nil => rfl
    | cons k ks ih =>
      cases hf : rows.find? (key · = k) with
      | none => simpa [hf] using ih
      | some r =>
        have hr : key r = k := by simpa using List.find?_some hf
        simpa [hf, hr] using ih
  rw [inOrder, map_append, hk]
  refine ((nodup_dedup order).filter _).append (hn.sublist (filter_sublist.map key)) ?_
  intro k ho hk
  obtain ⟨r, hr, rfl⟩ := mem_map.mp hk
  exact absurd (mem_dedup.mp (mem_filter.mp ho).1) (by simpa using (mem_filter.mp hr).2)

theorem length_inOrder_le (hn : (rows.map key).Nodup) : (inOrder key order rows).length ≤ rows.length :=
  (subperm_of_subset (nodup_inOrder hn).of_map fun _ => mem_of_mem_inOrder).length_le

end

end AsyncScheduler
