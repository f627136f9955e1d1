import AsyncScheduler.Shared.JsonValue

/-!
# Records as JSON values

A codec writes a value and reads it back, and refuses what has another shape.
-/

namespace AsyncScheduler
open JsonValue List

structure Codec (α : Type) where
  enc : α → JsonValue
  dec : JsonValue → Option α

/-- What a codec writes it reads back. What a script has made of it is read as the same value only if
the script has left it as it was. -/
class Codec.Lawful {α : Type} (c : Codec α) : Prop where
  dec_enc : ∀ a, c.dec (c.enc a) = some a
  stable : ∀ (number : ℚ → ℚ) a, c.dec ((c.enc a).reencode number) = some a → (c.enc a).Stable number

/-- No value is written as `null`. -/
class Codec.Solid {α : Type} (c : Codec α) : Prop where
  ne_null : ∀ a, c.enc a ≠ .null

namespace Codec

def str : Codec String where
  enc := .str
  dec
    | .str s => some s
    | _ => none

def bool : Codec Bool where
  enc := .bool
  dec
    | .bool b => some b
    | _ => none

def int : Codec Int where
  enc n := .num n
  dec
    | .num q => if q.den = 1 then some q.num else none
    | _ => none

def float : Codec ℚ where
  enc := .num
  dec
    | .num q => some q
    | _ => none

/-- A field of type `Any`. -/
def any : Codec JsonValue := ⟨id, some⟩

variable {α : Type}

def enum (value : α → String) (members : List α) : Codec α where
  enc a := .str (value a)
  dec
    | .str s => members.find? (value · = s)
    | _ => none

def optional (c : Codec α) : Codec (Option α) where
  enc
    | none => .null
    | some a => c.enc a
  dec
    | .null => some none
    | j => (c.dec j).map some

def decItems (c : Codec α) : List JsonValue → Option (List α)
  | [] => some []
  | j :: js =>
    match c.dec j, c.decItems js with
    | some a, some as => some (a :: as)
    | _, _ => none

def list (c : Codec α) : Codec (List α) where
  enc as := .arr (as.map c.enc)
  dec
    | .arr items => c.decItems items
    | _ => none

def decEntries (c : Codec α) : JsonObj → Option (List (String × α))
  | [] => some []
  | (k, j) :: rest =>
    match c.dec j, c.decEntries rest with
    | some a, some as => some ((k, a) :: as)
    | _, _ => none

def dict (c : Codec α) : Codec (List (String × α)) where
  enc as := .obj (as.map fun e => (e.1, c.enc e.2))
  dec
    | .obj fields => c.decEntries fields
    | _ => none

instance : str.Lawful where
  dec_enc _ := rfl
  stable _ _ _ := trivial

instance : str.Solid := ⟨fun _ h => nomatch h⟩

instance : bool.Lawful where
  dec_enc _ := rfl
  stable _ _ _ := trivial

instance : int.Lawful where
  dec_enc n := by simp [int]
  stable number n h := by
    simp only [int, JsonValue.reencode, JsonValue.Stable] at h ⊢
    split at h
    · next hden =>
      rw [Option.some.injEq] at h
      have hcast := Rat.coe_int_num_of_den_eq_one hden
      rw [h] at hcast
      exact hcast.symm
    · cases h

instance : int.Solid := ⟨fun _ h => nomatch h⟩

instance : float.Lawful where
  dec_enc _ := rfl
  stable _ _ h := Option.some.inj h

instance : float.Solid := ⟨fun _ h => nomatch h⟩

instance : any.Lawful where
  dec_enc _ := rfl
  stable number j h := (reencode_eq_self number j).mp (Option.some.inj h)

/-- A value that went through a script is read as it was exactly if it is stable. -/
theorem dec_reencode_iff (c : Codec α) [c.Lawful] (number : ℚ → ℚ) (a : α) :
    c.dec ((c.enc a).reencode number) = some a ↔ (c.enc a).Stable number := by
  refine ⟨Lawful.stable number a, fun h => ?_⟩
  rw [(reencode_eq_self number _).mpr h, Lawful.dec_enc]

theorem lawful_enum {value : α → String} {members : List α} (h : ∀ a, members.find? (value · = value a) = some a) :
    (enum value members).Lawful where
  dec_enc := h
  stable _ _ _ := trivial

variable (c : Codec α) [c.Lawful]

instance [c.Solid] : c.optional.Lawful where
  dec_enc a := by
    cases a with
    | none => rfl
    | some a =>
      have hne : c.enc a ≠ .null := Solid.ne_null a
      simp only [optional, Lawful.dec_enc a, Option.map_some]
  stable number a h := by
    cases a with
    | none => trivial
    | some a =>
      have hne : (c.enc a).reencode number ≠ .null :=
        fun hnull => Solid.ne_null a (eq_null_of_reencode number hnull)
      simp only [optional] at h ⊢
      refine Lawful.stable number a ?_
      obtain ⟨a', ha', heq⟩ := Option.map_eq_some_iff.mp h
      rw [ha', Option.some.inj heq]

theorem decItems_enc (as : List α) : c.decItems (as.map c.enc) = some as := by
  induction as with
  | nil => rfl
  | cons a as ih => simp only [map_cons, decItems, Lawful.dec_enc a, ih]

theorem stable_of_decItems (number : ℚ → ℚ) (as : List α)
    (h : c.decItems ((as.map c.enc).map (·.reencode number)) = some as) :
    JsonValue.StableItems number (as.map c.enc) := by
  induction as with
  | nil => trivial
  | cons a as ih =>
    simp only [map_cons, decItems] at h
    split at h
    · next b bs hb hbs =>
      obtain ⟨rfl, rfl⟩ := List.cons.inj (Option.some.inj h)
      exact ⟨Lawful.stable number b hb, ih hbs⟩
    · cases h

instance : c.list.Lawful where
  dec_enc as := c.decItems_enc as
  stable number as h := by
    cases as with
    | nil => cases h
    | cons a as =>
      have hne : (a :: as).map c.enc ≠ [] := by simp
      rw [list, reencode_arr number hne] at h
      exact ⟨hne, c.stable_of_decItems number (a :: as) h⟩

theorem decEntries_enc (as : List (String × α)) : c.decEntries (as.map fun e => (e.1, c.enc e.2)) = some as := by
  induction as with
  | nil => rfl
  | cons e as ih => simp only [map_cons, decEntries, Lawful.dec_enc e.2, ih]

theorem stable_of_decEntries (number : ℚ → ℚ) (as : List (String × α))
    (h : c.decEntries ((as.map fun e => (e.1, c.enc e.2)).map fun e => (e.1, e.2.reencode number)) = some as) :
    JsonValue.StableFields number (as.map fun e => (e.1, c.enc e.2)) := by
  induction as with
  | nil => trivial
  | cons e as ih =>
    obtain ⟨k, a⟩ := e
    simp only [map_cons, decEntries] at h
    split at h
    · next b bs hb hbs =>
      obtain ⟨heq, rfl⟩ := List.cons.inj (Option.some.inj h)
      obtain rfl := (Prod.mk.inj heq).2
      exact ⟨Lawful.stable number b hb, ih hbs⟩
    · cases h

instance : c.dict.Lawful where
  dec_enc as := c.decEntries_enc as
  stable number as h := by
    rw [dict, reencode_obj] at h
    exact c.stable_of_decEntries number as h

end Codec

/-- Some fields of a record, read through the lookup of the object that holds them. -/
structure Fields (α : Type) where
  names : List String
  enc : α → JsonObj
  dec : (String → Option JsonValue) → Option α

def HoldsFields (lookup : String → Option JsonValue) (fields : JsonObj) : Prop :=
  ∀ e ∈ fields, lookup e.1 = some e.2

theorem holdsFields_lookup {fields : JsonObj} (h : (fields.map Prod.fst).Nodup) :
    HoldsFields (fields.lookup ·) fields := by
  induction fields with
  | nil => exact fun e he => absurd he not_mem_nil
  | cons e rest ih =>
    obtain ⟨k, j⟩ := e
    obtain ⟨hh, hr⟩ := nodup_cons.mp h
    intro e' he'
    rcases mem_cons.mp he' with rfl | hin
    · simp
    · have hne : e'.1 ≠ k := by
        rintro rfl
        exact hh (mem_map.mpr ⟨e', hin, rfl⟩)
      have hb : (e'.1 == k) = false := beq_eq_false_iff_ne.mpr hne
      simpa only [lookup_cons, hb] using ih hr e' hin

class Fields.Lawful {α : Type} (F : Fields α) : Prop where
  names_enc : ∀ a, (F.enc a).map Prod.fst = F.names
  dec_enc : ∀ a lookup, HoldsFields lookup (F.enc a) → F.dec lookup = some a
  stable : ∀ (number : ℚ → ℚ) a lookup, HoldsFields lookup (JsonValue.reencodeFields number (F.enc a)) →
    F.dec lookup = some a → JsonValue.StableFields number (F.enc a)

namespace Fields
variable {α β : Type}

def nil : Fields Unit := ⟨[], fun _ => [], fun _ => some ()⟩

def cons (name : String) (c : Codec α) (default : Option α) (rest : Fields β) : Fields (α × β) where
  names := name :: rest.names
  enc p := (name, c.enc p.1) :: rest.enc p.2
  dec lookup :=
    match (match lookup name with
      | some j => c.dec j
      | none => default), rest.dec lookup with
    | some a, some b => some (a, b)
    | _, _ => none

variable {name : String} {c : Codec α} {default : Option α} {rest : Fields β} {lookup : String → Option JsonValue}
  {p : α × β}

theorem dec_head (h : (cons name c default rest).dec lookup = some p) {j : JsonValue} (hj : lookup name = some j) :
    c.dec j = some p.1 := by
  simp only [cons, hj] at h
  split at h
  · next a b ha hb =>
    obtain rfl := Option.some.inj h
    exact ha
  · cases h

theorem dec_rest (h : (cons name c default rest).dec lookup = some p) : rest.dec lookup = some p.2 := by
  simp only [cons] at h
  split at h
  · next a b ha hb =>
    obtain rfl := Option.some.inj h
    exact hb
  · cases h

instance : nil.Lawful where
  names_enc _ := rfl
  dec_enc _ _ _ := rfl
  stable _ _ _ _ _ := trivial

instance (name : String) (c : Codec α) [c.Lawful] (default : Option α) (rest : Fields β) [rest.Lawful] :
    (cons name c default rest).Lawful where
  names_enc p := congrArg (name :: ·) (Lawful.names_enc p.2)
  dec_enc := by
    rintro ⟨a, b⟩ lookup h
    have hhead : lookup name = some (c.enc a) := h (name, c.enc a) mem_cons_self
    have hrest : rest.dec lookup = some b := Lawful.dec_enc b lookup fun e he => h e (mem_cons_of_mem _ he)
    simp only [cons, hhead, hrest, Codec.Lawful.dec_enc a]
  stable := by
    rintro number ⟨a, b⟩ lookup h hdec
    have hhead : lookup name = some ((c.enc a).reencode number) := h (name, (c.enc a).reencode number) mem_cons_self
    simp only [cons, hhead] at hdec
    split at hdec
    · next a' b' ha hb =>
      obtain ⟨rfl, rfl⟩ := Prod.mk.inj (Option.some.inj hdec)
      refine ⟨Codec.Lawful.stable number a' ha, Lawful.stable number b' lookup (fun e he => ?_) hb⟩
      exact h e (mem_cons_of_mem _ he)
    · cases hdec

end Fields

/-- A record with the given fields, put together by `build` unless its own check fails. -/
def Codec.record {α β : Type} (F : Fields β) (parts : α → β) (build : β → Option α) : Codec α where
  enc a := .obj (F.enc (parts a))
  dec
    | .obj fields => (F.dec (fields.lookup ·)).bind build
    | _ => none

variable {α β : Type} {F : Fields β} {parts : α → β} {build : β → Option α}

/-- An object is read as a record if it has the record's fields, whatever else it has. -/
theorem Codec.record_dec_of_holdsFields [F.Lawful] (h : ∀ a, build (parts a) = some a) {a : α}
    {fields : JsonObj} (hf : HoldsFields (fields.lookup ·) (F.enc (parts a))) :
    (Codec.record F parts build).dec (.obj fields) = some a := by
  change (F.dec (fields.lookup ·)).bind build = some a
  rw [Fields.Lawful.dec_enc (parts a) (fields.lookup ·) hf, Option.bind_some, h]

/-- What a script has left of the fields is read as the record only if they are stable. -/
theorem Codec.stable_of_record_dec [F.Lawful] (h : ∀ b a, build b = some a → b = parts a) {a : α} {number : ℚ → ℚ}
    {fields : JsonObj}
    (hf : HoldsFields (fields.lookup ·) (JsonValue.reencodeFields number (F.enc (parts a))))
    (hd : (Codec.record F parts build).dec (.obj fields) = some a) :
    ((Codec.record F parts build).enc a).Stable number := by
  obtain ⟨b, hb, hbu⟩ := Option.bind_eq_some_iff.mp hd
  rw [h b a hbu] at hb
  exact Fields.Lawful.stable number (parts a) (fields.lookup ·) hf hb

theorem JsonValue.names_reencodeFields (number : ℚ → ℚ) (fields : JsonObj) :
    (JsonValue.reencodeFields number fields).map Prod.fst = fields.map Prod.fst := by
  rw [reencodeFields_eq, map_map]
  rfl

theorem Codec.lawful_record [F.Lawful] (hn : F.names.Nodup)
    (hp : ∀ a, build (parts a) = some a) (hb : ∀ b a, build b = some a → b = parts a) :
    (Codec.record F parts build).Lawful where
  dec_enc a := by
    refine Codec.record_dec_of_holdsFields hp (holdsFields_lookup ?_)
    rw [Fields.Lawful.names_enc]
    exact hn
  stable number a h := by
    refine Codec.stable_of_record_dec hb (holdsFields_lookup ?_) h
    rw [names_reencodeFields, Fields.Lawful.names_enc]
    exact hn

theorem Codec.solid_record : (Codec.record F parts build).Solid := ⟨fun _ h => nomatch h⟩

end AsyncScheduler
