import AsyncScheduler.Shared.Keyspace
import AsyncScheduler.Shared.JsonValue
import Mathlib.Algebra.Order.Floor.Ring
import Mathlib.Tactic.Linarith

/-!
# Schedule records

A schedule is a JSON object with whatever keys its creator gave it. A firing has an idempotency key
with the minute it is made in.
-/

namespace AsyncScheduler

inductive Json where
  | null
  | bool (b : Bool)
  | num (q : ℚ)
  | str (s : String)
  /-- A string in a field of instants that `datetime.fromisoformat` reads as this one. -/
  | time (t : ℚ)
  /-- A list or an object, with the text that `str` makes of it. -/
  | nested (text : String) (value : JsonValue)
  deriving DecidableEq, Repr

namespace Json

def truthy : Json → Bool
  | .null => false
  | .bool b => b
  | .num q => q ≠ 0
  | .str s => s ≠ ""
  | .time _ => true
  | .nested _ value => value.truthy

/-- `str(value)`, as an f-string writes it. -/
def pyStr : Json → String
  | .null => "None"
  | .bool b => if b then "True" else "False"
  | .num q => toString q
  | .str s => s
  | .time t => "@" ++ toString t
  | .nested text _ => text

def encoded : Json → Option String
  | .num q => some (toString q)
  | .str s => some s
  | .time t => some ("@" ++ toString t)
  | .null | .bool _ | .nested _ _ => none

end Json

abbrev Dict := List (String × Json)

namespace Dict

def get (d : Dict) (k : String) : Option Json := d.lookup k

def getD (d : Dict) (k : String) (default : Json) : Json := (d.get k).getD default

def set (d : Dict) (k : String) (v : Json) : Dict := (k, v) :: d.filter (·.1 ≠ k)

theorem get_set (d : Dict) (k k' : String) (v : Json) : (d.set k v).get k' = if k' = k then some v else d.get k' := by
  rw [get, set, List.lookup_cons, lookup_filter_key (fun x => x ≠ k)]
  by_cases hk : k' = k
  · simp [hk]
  · have hne : (k' == k) = false := beq_eq_false_iff_ne.mpr hk
    simp [hk, hne, get]

end Dict

/-- What a string key of the registries holds: an object, another JSON value, or a text that is
none. -/
inductive Stored where
  | text (s : String)
  | json (j : Json)
  | dict (d : Dict)
  deriving DecidableEq, Repr

def Stored.onDict (f : Dict → Dict) : Stored → Stored
  | .dict d => .dict (f d)
  | v => v

/-- `now.timestamp() // 60 * 60`. -/
def minuteOf (now : ℚ) : Int := ⌊now / 60⌋ * 60

theorem lt_minuteOf_add (now : ℚ) : now < minuteOf now + 60 := by
  have hf := Int.lt_floor_add_one (now / 60)
  rw [minuteOf]
  push_cast
  linarith

def cronIdemKey (scheduleId : Json) (now : ℚ) : String := "cron:" ++ scheduleId.pyStr ++ ":" ++ toString (minuteOf now)

end AsyncScheduler
