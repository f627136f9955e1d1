import Mathlib.Data.Rat.Defs
import Mathlib.Tactic.Common

/-!
# JSON values

Values as a parser returns them, and what is left of one when a Lua script decodes and encodes it:
an empty array comes back as an empty object, and a number as what the printer of the script makes
of it.
-/

namespace AsyncScheduler
open List

inductive JsonValue where
  | null
  | bool (b : Bool)
  | num (q : ℚ)
  | str (s : String)
  | arr (items : List JsonValue)
  | obj (fields : List (String × JsonValue))
  deriving Repr

abbrev JsonObj := List (String × JsonValue)

namespace JsonValue
variable {items : List JsonValue} {fields : JsonObj}

mutual

def decEq : (a b : JsonValue) → Decidable (a = b)
  | .null, .null => isTrue rfl
  | .bool a, .bool b => decidable_of_iff (a = b) ⟨congrArg _, JsonValue.bool.inj⟩
  | .num a, .num b => decidable_of_iff (a = b) ⟨congrArg _, JsonValue.num.inj⟩
  | .str a, .str b => decidable_of_iff (a = b) ⟨congrArg _, JsonValue.str.inj⟩
  | .arr as, .arr bs => @decidable_of_iff _ (as = bs) ⟨congrArg _, JsonValue.arr.inj⟩ (decEqItems as bs)
  | .obj as, .obj bs => @decidable_of_iff _ (as = bs) ⟨congrArg _, JsonValue.obj.inj⟩ (decEqFields as bs)
  | .null, .bool _ | .null, .num _ | .null, .str _ | .null, .arr _ | .null, .obj _
  | .bool _, .null | .bool _, .num _ | .bool _, .str _ | .bool _, .arr _ | .bool _, .obj _
  | .num _, .null | .num _, .bool _ | .num _, .str _ | .num _, .arr _ | .num _, .obj _
  | .str _, .null | .str _, .bool _ | .str _, .num _ | .str _, .arr _ | .str _, .obj _
  | .arr _, .null | .arr _, .bool _ | .arr _, .num _ | .arr _, .str _ | .arr _, .obj _
  | .obj _, .null | .obj _, .bool _ | .obj _, .num _ | .obj _, .str _ | .obj _, .arr _ => isFalse fun h => nomatch h

def decEqItems : (as bs : List JsonValue) → Decidable (as = bs)
  | [], [] => isTrue rfl
  | [], _ :: _ => isFalse fun h => nomatch h
  | _ :: _, [] => isFalse fun h => nomatch h
  | a :: as, b :: bs =>
    match decEq a b, decEqItems as bs with
    | isTrue h, isTrue h' => isTrue (h ▸ h' ▸ rfl)
    | isFalse h, _ => isFalse fun heq => h (List.cons.inj heq).1
    | _, isFalse h => isFalse fun heq => h (List.cons.inj heq).2

def decEqFields : (as bs : JsonObj) → Decidable (as = bs)
  | [], [] => isTrue rfl
  | [], _ :: _ => isFalse fun h => nomatch h
  | _ :: _, [] => isFalse fun h => nomatch h
  | (k, a) :: as, (l, b) :: bs =>
    match (inferInstance : Decidable (k = l)), decEq a b, decEqFields as bs with
    | isTrue hk, isTrue h, isTrue h' => isTrue (hk ▸ h ▸ h' ▸ rfl)
    | isFalse hk, _, _ => isFalse fun heq => hk (Prod.mk.inj (List.cons.inj heq).1).1
    | _, isFalse h, _ => isFalse fun heq => h (Prod.mk.inj (List.cons.inj heq).1).2
    | _, _, isFalse h => isFalse fun heq => h (List.cons.inj heq).2

end

instance : DecidableEq JsonValue := decEq

def truthy : JsonValue → Bool
  | .null => false
  | .bool b => b
  | .num q => q ≠ 0
  | .str s => s ≠ ""
  | .arr items => items ≠ []
  | .obj fields => fields ≠ []

mutual

/-- Decoded and encoded by a script that prints numbers with `number`. -/
def reencode (number : ℚ → ℚ) : JsonValue → JsonValue
  | .null => .null
  | .bool b => .bool b
  | .num q => .num (number q)
  | .str s => .str s
  | .arr items => if items.isEmpty then .obj [] else .arr (reencodeItems number items)
  | .obj fields => .obj (reencodeFields number fields)

def reencodeItems (number : ℚ → ℚ) : List JsonValue → List JsonValue
  | [] => []
  | x :: xs => x.reencode number :: reencodeItems number xs

def reencodeFields (number : ℚ → ℚ) : JsonObj → JsonObj
  | [] => []
  | (k, v) :: rest => (k, v.reencode number) :: reencodeFields number rest

end

variable (number : ℚ → ℚ)

theorem reencodeItems_eq (items : List JsonValue) : reencodeItems number items = items.map (·.reencode number) := by
  induction items with
  | nil => rfl
  | cons x xs ih => rw [reencodeItems, ih, map_cons]

theorem reencodeFields_eq (fields : JsonObj) :
    reencodeFields number fields = fields.map fun e => (e.1, e.2.reencode number) := by
  induction fields with
  | nil => rfl
  | cons e rest ih => rw [reencodeFields, ih, map_cons]

theorem reencode_arr (h : items ≠ []) :
    (JsonValue.arr items).reencode number = .arr (items.map (·.reencode number)) := by
  rw [reencode, if_neg (by simpa using h), reencodeItems_eq]

theorem reencode_obj (fields : JsonObj) :
    (JsonValue.obj fields).reencode number = .obj (fields.map fun e => (e.1, e.2.reencode number)) := by
  rw [reencode, reencodeFields_eq]

/-- Nothing else becomes `null`. -/
theorem eq_null_of_reencode {j : JsonValue} (h : j.reencode number = .null) : j = .null := by
  cases j with
  | null => rfl
  | arr items =>
    rw [reencode] at h
    split at h <;> cases h
  | bool b | num q | str s | obj fields => cases h

mutual

/-- The value comes back as it was: it has no empty array, and `number` keeps its numbers. -/
def Stable : JsonValue → Prop
  | .num q => number q = q
  | .arr items => items ≠ [] ∧ StableItems items
  | .obj fields => StableFields fields
  | _ => True

def StableItems : List JsonValue → Prop
  | [] => True
  | x :: xs => x.Stable ∧ StableItems xs

def StableFields : JsonObj → Prop
  | [] => True
  | (_, v) :: rest => v.Stable ∧ StableFields rest

end

theorem stableItems_iff : StableItems number items ↔ ∀ j ∈ items, j.Stable number := by
  induction items with
  | nil => simp [StableItems]
  | cons x xs ih => rw [StableItems, ih, forall_mem_cons]

theorem stableFields_iff : StableFields number fields ↔ ∀ e ∈ fields, e.2.Stable number := by
  induction fields with
  | nil => simp [StableFields]
  | cons e rest ih => rw [StableFields, ih, forall_mem_cons]

mutual

theorem reencode_eq_self (j : JsonValue) : j.reencode number = j ↔ j.Stable number := by
  match j with
  | .null => simp [reencode, Stable]
  | .bool b => simp [reencode, Stable]
  | .num q => simp [reencode, Stable]
  | .str s => simp [reencode, Stable]
  | .arr [] => simp [reencode, Stable]
  | .arr (x :: xs) =>
    rw [reencode, Stable, if_neg (by simp), JsonValue.arr.injEq, reencodeItems_eq_self]
    simp
  | .obj fields => rw [reencode, Stable, JsonValue.obj.injEq, reencodeFields_eq_self]

theorem reencodeItems_eq_self (items : List JsonValue) : reencodeItems number items = items ↔ StableItems number items := by
  match items with
  | [] => simp [reencodeItems, StableItems]
  | x :: xs => rw [reencodeItems, StableItems, List.cons.injEq, reencode_eq_self x, reencodeItems_eq_self xs]

theorem reencodeFields_eq_self (fields : JsonObj) :
    reencodeFields number fields = fields ↔ StableFields number fields := by
  match fields with
  | [] => simp [reencodeFields, StableFields]
  | (k, v) :: rest =>
    rw [reencodeFields, StableFields, List.cons.injEq, Prod.mk.injEq, reencode_eq_self v, reencodeFields_eq_self rest]
    simp

end

/-- `obj[name] = value`: an existing field keeps its place. -/
def assign (fields : JsonObj) (name : String) (value : JsonValue) : JsonObj :=
  if (fields.lookup name).isSome then fields.map fun e => if e.1 = name then (name, value) else e
  else fields ++ [(name, value)]

theorem lookup_map_assign {β : Type} (fields : List (String × β)) (name : String) (value : β) (n : String) :
    (fields.map fun e => if e.1 = name then (name, value) else e).lookup n =
      if n = name then (fields.lookup n).map fun _ => value else fields.lookup n := by
  induction fields with
  | nil => simp
  | cons e rest ih =>
    obtain ⟨k, v⟩ := e
    rw [map_cons]
    by_cases hk : k = name
    · subst hk
      by_cases hn : n = k
      · subst hn
        simp
      · have hne : (n == k) = false := beq_eq_false_iff_ne.mpr hn
        simp only [if_true, lookup_cons, hne, ih, if_neg hn]
    · by_cases hn : n = k
      · subst hn
        simp [hk]
      · have hne : (n == k) = false := beq_eq_false_iff_ne.mpr hn
        simp only [if_neg hk, lookup_cons, hne, ih]

theorem lookup_assign (fields : JsonObj) (name : String) (value : JsonValue) (n : String) :
    (assign fields name value).lookup n = if n = name then some value else fields.lookup n := by
  unfold assign
  split
  · next hs =>
    rw [lookup_map_assign]
    by_cases hn : n = name
    · subst hn
      obtain ⟨v, hv⟩ := Option.isSome_iff_exists.mp hs
      simp [hv]
    · rw [if_neg hn, if_neg hn]
  · next hno =>
    have ha : fields.lookup name = none := Option.not_isSome_iff_eq_none.mp hno
    rw [lookup_append]
    by_cases hn : n = name
    · subst hn
      simp [ha]
    · have hne : (n == name) = false := beq_eq_false_iff_ne.mpr hn
      simp [hn, lookup_cons, hne]

theorem nodup_assign (h : (fields.map Prod.fst).Nodup) (name : String)
    (value : JsonValue) : ((assign fields name value).map Prod.fst).Nodup := by
  unfold assign
  split
  · have hk : (fields.map fun e => if e.1 = name then (name, value) else e).map Prod.fst = fields.map Prod.fst := by
      rw [map_map]
      refine map_congr_left fun e _ => ?_
      by_cases he : e.1 = name
      · simp [he]
      · simp [he]
    rw [hk]
    exact h
  · next hn =>
    have hab : name ∉ fields.map Prod.fst := by
      intro hm
      obtain ⟨e, he, rfl⟩ := mem_map.mp hm
      have hl := lookup_eq_none_iff.mp (Option.not_isSome_iff_eq_none.mp hn) e he
      simp at hl
    rw [map_append, map_cons, map_nil]
    exact nodup_append.mpr ⟨h, pairwise_singleton _ name, fun a ha b hb => by
      rw [mem_singleton.mp hb]
      rintro rfl
      exact hab ha⟩

/-- `obj.update(other)`. -/
def assignAll (fields other : JsonObj) : JsonObj :=
  other.foldl (fun fs e => assign fs e.1 e.2) fields

/-- With distinct names, a field has its new value if there is one, and its old value otherwise. -/
theorem lookup_assignAll (fields : JsonObj) {other : JsonObj}
    (h : (other.map Prod.fst).Nodup) (n : String) :
    (assignAll fields other).lookup n = (other.lookup n).or (fields.lookup n) := by
  induction other generalizing fields with
  | nil => rfl
  | cons e other ih =>
    obtain ⟨k, v⟩ := e
    obtain ⟨hh, hr⟩ := nodup_cons.mp h
    have hs : assignAll fields ((k, v) :: other) = assignAll (assign fields k v) other := rfl
    rw [hs, ih _ hr, lookup_assign]
    by_cases hn : n = k
    · subst hn
      have hno : other.lookup n = none := by
        refine lookup_eq_none_iff.mpr fun e he => ?_
        rw [bne_iff_ne]
        rintro rfl
        exact hh (mem_map.mpr ⟨e, he, rfl⟩)
      rw [hno, if_pos rfl, lookup_cons_self]
      rfl
    · have hne : (n == k) = false := beq_eq_false_iff_ne.mpr hn
      rw [if_neg hn, lookup_cons, hne]

end JsonValue

end AsyncScheduler
