import AsyncScheduler.Shared.JsonValue
import Mathlib.Data.List.Infix
import Mathlib.Algebra.Order.Ring.Rat
import Mathlib.Order.Compare

/-!
# Python's operators on JSON values

Equality, order and membership as Python computes them on the values that a JSON parser returns, and
the texts of natural numbers.
-/

namespace AsyncScheduler

namespace JsonValue

def typeName : JsonValue → String
  | .null => "NoneType"
  | .bool _ => "bool"
  | .num q => if q.isInt then "int" else "float"
  | .str _ => "str"
  | .arr _ => "list"
  | .obj _ => "dict"

def asNumber : JsonValue → Option ℚ
  | .bool b => some (if b then 1 else 0)
  | .num q => some q
  | _ => none

mutual

def equals : JsonValue → JsonValue → Bool
  | .null, .null => true
  | .str a, .str b => a = b
  | .arr as, .arr bs => equalsItems as bs
  | .obj as, .obj bs => as.length = bs.length && equalsFields as bs
  | a, b =>
    match a.asNumber, b.asNumber with
    | some p, some q => p = q
    | _, _ => false

def equalsItems : List JsonValue → List JsonValue → Bool
  | [], [] => true
  | a :: as, b :: bs => a.equals b && equalsItems as bs
  | _, _ => false

def equalsFields : JsonObj → JsonObj → Bool
  | [], _ => true
  | (k, a) :: rest, bs =>
    (match bs.lookup k with
      | some b => a.equals b
      | none => false) && equalsFields rest bs

end

mutual

/-- How two values compare; `none` is a `TypeError`. -/
def order : JsonValue → JsonValue → Option Ordering
  | .str a, .str b => some (compare a b)
  | .arr as, .arr bs => orderItems as bs
  | a, b =>
    match a.asNumber, b.asNumber with
    | some p, some q => some (compare p q)
    | _, _ => none

def orderItems : List JsonValue → List JsonValue → Option Ordering
  | [], [] => some .eq
  | [], _ :: _ => some .lt
  | _ :: _, [] => some .gt
  | a :: as, b :: bs => if a.equals b then orderItems as bs else a.order b

end

/-- `item in container`; `none` is a `TypeError`. -/
def contains : JsonValue → JsonValue → Option Bool
  | .str s, .str part => some (decide (part.toList <:+: s.toList))
  | .arr items, item => some (items.any item.equals)
  | .obj fields, .str name => some (fields.lookup name).isSome
  -- A list or a dict has no hash
  | .obj _, .arr _ | .obj _, .obj _ => none
  | .obj _, _ => some false
  | _, _ => none

end JsonValue

theorem natRepr_injective : Function.Injective Nat.repr := by
  intro m n h
  have hd : Nat.toDigits 10 m = Nat.toDigits 10 n := String.ofList_injective h
  rw [← Nat.ofDigitChars_ten_toDigits (n := m), hd, Nat.ofDigitChars_ten_toDigits]

end AsyncScheduler
