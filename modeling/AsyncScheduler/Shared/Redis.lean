import AsyncScheduler.Shared.SortedSet
import Mathlib.Algebra.Order.Floor.Defs
import Mathlib.Data.Rat.Floor
import Mathlib.Data.String.Basic
import Mathlib.Logic.Function.Basic

/-!
# A Redis keyspace

Strings, sorted sets, hashes and sets, each with its own map from keys, and one clock.
-/

namespace AsyncScheduler
open Function

/-- A hash field: the number its text reads as, or a text that reads as none. -/
inductive HashValue where
  | num (q : ℚ)
  | text (s : String)
  deriving DecidableEq, Repr

def HashValue.tonumber : HashValue → Option ℚ
  | .num q => some q
  | .text _ => none

abbrev ZSet := SortedSet String ℚ

structure Redis (β : Type) where
  clock : ℚ
  strings : String → Option (β × Option ℚ)
  zsets : String → ZSet
  zexpire : String → Option ℚ
  hashes : String → List (String × HashValue)
  hexpire : String → Option ℚ
  sets : String → List String

namespace Redis
variable {β : Type}

def empty : Redis β := ⟨0, fun _ => none, fun _ => ∅, fun _ => none, fun _ => [], fun _ => none, fun _ => []⟩

instance : Inhabited (Redis β) := ⟨empty⟩

def live (t : ℚ) : Option ℚ → Bool
  | none => true
  | some d => t < d

/-- The clock reaches `t`: every key whose deadline has come is gone. -/
def advance (r : Redis β) (t : ℚ) : Redis β where
  clock := t
  strings k := (r.strings k).filter (live t ·.2)
  zsets k := if live t (r.zexpire k) then r.zsets k else ∅
  zexpire k := (r.zexpire k).filter (t < ·)
  hashes k := if live t (r.hexpire k) then r.hashes k else []
  hexpire k := (r.hexpire k).filter (t < ·)
  sets := r.sets

def get (r : Redis β) (k : String) : Option β := (r.strings k).map Prod.fst

def existsKey (r : Redis β) (k : String) : Bool := (r.strings k).isSome

def set (r : Redis β) (k : String) (v : β) (ex : Option ℚ) : Redis β :=
  { r with strings := Function.update r.strings k (some (v, ex.map (r.clock + ·))) }

def setNx (r : Redis β) (k : String) (v : β) (ex : ℚ) : Bool × Redis β :=
  if r.existsKey k then (false, r) else (true, r.set k v (some ex))

def del (r : Redis β) (k : String) : Redis β :=
  { r with strings := Function.update r.strings k none }

def expire (r : Redis β) (k : String) (seconds : ℚ) : Redis β :=
  match r.strings k with
  | none => r
  | some (v, _) => if seconds ≤ 0 then r.del k else r.set k v (some seconds)

def deadline (r : Redis β) (k : String) : Option ℚ :=
  if (r.zsets k).card = 0 then none else r.zexpire k

/-- Replace the elements of a key; a key that appears or disappears has no deadline. -/
def putZset (r : Redis β) (k : String) (z : ZSet) : Redis β :=
  { r with
    zsets := Function.update r.zsets k z
    zexpire := Function.update r.zexpire k (if z.card = 0 then none else r.deadline k) }

def zcard (r : Redis β) (k : String) : Nat := (r.zsets k).card

def zscore (r : Redis β) (k m : String) : Option ℚ := (r.zsets k).score m

def zadd (r : Redis β) (k : String) (s : ℚ) (m : String) : Redis β :=
  r.putZset k ((r.zsets k).add m s)

def zrem (r : Redis β) (k m : String) : Redis β := r.putZset k ((r.zsets k).remove m)

def zremAll (r : Redis β) (k : String) (ms : List String) : Redis β :=
  r.putZset k ((r.zsets k).removeAll ms)

/-- `ZRANGEBYSCORE key -inf +inf WITHSCORES LIMIT 0 n`; a negative count is no limit. -/
def zrangeAll (r : Redis β) (k : String) (n : Int) : List (String × ℚ) :=
  if n < 0 then (r.zsets k).entries else (r.zsets k).entries.take n.toNat

def zrangeTo (r : Redis β) (k : String) (max : ℚ) : List String :=
  ((r.zsets k).entries.filter (·.2 ≤ max)).map Prod.fst

def ttlReply (clock : ℚ) : Option ℚ → Int
  | none => -1
  | some d => ⌊d - clock + 1 / 2⌋

def zttl (r : Redis β) (k : String) : Int :=
  if r.zcard k = 0 then -2 else ttlReply r.clock (r.zexpire k)

def zexpireIn (r : Redis β) (k : String) (seconds : ℚ) : Redis β :=
  if r.zcard k = 0 then r
  else if seconds ≤ 0 then r.putZset k ∅
  else { r with zexpire := Function.update r.zexpire k (some (r.clock + seconds)) }

def hget (r : Redis β) (k f : String) : Option HashValue := (r.hashes k).lookup f

def hset (r : Redis β) (k f : String) (v : HashValue) : Redis β :=
  { r with
    hashes := Function.update r.hashes k ((f, v) :: (r.hashes k).filter (·.1 ≠ f))
    hexpire := if (r.hashes k).isEmpty then Function.update r.hexpire k none else r.hexpire }

/-- `HINCRBY` on a field that holds a number or nothing. -/
def hincrby (r : Redis β) (k f : String) (n : ℚ) : Redis β :=
  r.hset k f (.num (((r.hget k f).bind HashValue.tonumber).getD 0 + n))

def httl (r : Redis β) (k : String) : Int :=
  if (r.hashes k).isEmpty then -2 else ttlReply r.clock (r.hexpire k)

def hexpireIn (r : Redis β) (k : String) (seconds : ℚ) : Redis β :=
  if (r.hashes k).isEmpty then r
  else if seconds ≤ 0 then
    { r with hashes := Function.update r.hashes k [], hexpire := Function.update r.hexpire k none }
  else { r with hexpire := Function.update r.hexpire k (some (r.clock + seconds)) }

def sadd (r : Redis β) (k m : String) : Redis β :=
  { r with sets := Function.update r.sets k (if m ∈ r.sets k then r.sets k else m :: r.sets k) }

def sorted (r : Redis β) : ℚ × (String → ZSet) × (String → Option ℚ) := (r.clock, r.zsets, r.zexpire)

section Sorted
variable {r r' : Redis β} (h : r'.sorted = r.sorted)
include h

theorem clock_of_sorted : r'.clock = r.clock := congrArg (·.1) h

theorem zsets_of_sorted : r'.zsets = r.zsets := congrArg (·.2.1) h

theorem zexpire_of_sorted : r'.zexpire = r.zexpire := congrArg (·.2.2) h

theorem deadline_of_sorted (k : String) : r'.deadline k = r.deadline k := by
  rw [deadline, deadline, zsets_of_sorted h, zexpire_of_sorted h]

end Sorted

section Lemmas
variable (r : Redis β) (k k' f m : String)

@[simp] theorem sorted_hincrby (q : ℚ) : (r.hincrby k f q).sorted = r.sorted := rfl

@[simp] theorem sorted_hexpireIn (seconds : ℚ) : (r.hexpireIn k seconds).sorted = r.sorted := by
  unfold hexpireIn
  split
  · rfl
  · split <;> rfl

@[simp] theorem sorted_set (v : β) (ex : Option ℚ) : (r.set k v ex).sorted = r.sorted := rfl

@[simp] theorem sorted_del : (r.del k).sorted = r.sorted := rfl

@[simp] theorem sorted_expire (seconds : ℚ) : (r.expire k seconds).sorted = r.sorted := by
  unfold expire
  split
  · rfl
  · split <;> rfl

@[simp] theorem sorted_setNx (v : β) (ex : ℚ) : (r.setNx k v ex).2.sorted = r.sorted := by
  unfold setNx
  split <;> rfl

@[simp] theorem zsets_putZset (z : ZSet) : (r.putZset k z).zsets k' = if k' = k then z else r.zsets k' := by
  simp [putZset, update_apply]

@[simp] theorem zexpire_putZset (z : ZSet) : (r.putZset k z).zexpire k' =
      if k' = k then if z.card = 0 then none else r.deadline k else r.zexpire k' := by
  simp [putZset, update_apply]

theorem deadline_putZset (z : ZSet) : (r.putZset k z).deadline k' =
      if k' = k then if z.card = 0 then none else r.deadline k else r.deadline k' := by
  by_cases hk : k' = k
  · subst hk
    by_cases hz : z.card = 0 <;> simp [deadline, putZset, hz]
  · simp [deadline, putZset, hk]

@[simp] theorem zsets_zadd (q : ℚ) :
    (r.zadd k q m).zsets k' = if k' = k then (r.zsets k).add m q else r.zsets k' := zsets_putZset ..

theorem zscore_zadd (q : ℚ) (n : String) :
    (r.zadd k q m).zscore k' n = if k' = k ∧ n = m then some q else r.zscore k' n := by
  unfold zscore
  rw [zsets_zadd]
  by_cases hk : k' = k
  · simp [hk, SortedSet.score_add]
  · simp [hk]

@[simp] theorem zsets_zrem :
    (r.zrem k m).zsets k' = if k' = k then (r.zsets k).remove m else r.zsets k' := zsets_putZset ..

@[simp] theorem zsets_zremAll (ms : List String) :
    (r.zremAll k ms).zsets k' = if k' = k then (r.zsets k).removeAll ms else r.zsets k' :=
  zsets_putZset ..

@[simp] theorem zsets_hincrby (q : ℚ) : (r.hincrby k f q).zsets = r.zsets := rfl

theorem zsets_zexpireIn (seconds : ℚ) : (r.zexpireIn k seconds).zsets k' =
      if k' = k ∧ seconds ≤ 0 then ∅ else r.zsets k' := by
  unfold zexpireIn
  by_cases hc : r.zcard k = 0
  · rw [if_pos hc]
    by_cases h : k' = k ∧ seconds ≤ 0
    · rw [if_pos h, h.1]
      exact SortedSet.eq_empty_of_card_eq_zero hc
    · rw [if_neg h]
  · rw [if_neg hc]
    by_cases hs : seconds ≤ 0
    · simp [hs]
    · simp [hs]

theorem deadline_of_mem {r : Redis β} {k m : String} (hm : m ∈ r.zsets k) : r.deadline k = r.zexpire k := by
  refine if_neg fun hc => ?_
  exact (SortedSet.card_eq_zero_iff _).mp hc m hm

theorem deadline_zadd (q : ℚ) : (r.zadd k q m).deadline k' = r.deadline k' := by
  rw [zadd, deadline_putZset]
  split
  · rename_i hk
    rw [if_neg, hk]
    exact fun hc => (SortedSet.card_eq_zero_iff _).mp hc m (by simp)
  · rfl

theorem deadline_zrem_of_mem {x : String} (hx : x ∈ r.zsets k') (hne : k' = k → x ≠ m) :
    (r.zrem k m).deadline k' = r.deadline k' := by
  rw [zrem, deadline_putZset]
  split
  · rename_i hk
    subst hk
    rw [if_neg]
    exact fun hc => (SortedSet.card_eq_zero_iff _).mp hc x (by simp [hx, hne rfl])
  · rfl

theorem deadline_zexpireIn {seconds : ℚ} (hca : r.zcard k ≠ 0) (hs : 0 < seconds) :
    (r.zexpireIn k seconds).deadline k = some (r.clock + seconds) := by
  have hc : (r.zsets k).card ≠ 0 := hca
  simp [zexpireIn, hca, not_le.mpr hs, deadline, hc]

theorem deadline_zexpireIn_of_ne (seconds : ℚ) (hk : k' ≠ k) :
    (r.zexpireIn k seconds).deadline k' = r.deadline k' := by
  unfold zexpireIn
  split
  · rfl
  · split
    · rw [deadline_putZset, if_neg hk]
    · simp [deadline, update_of_ne hk]

theorem zexpire_zexpireIn_of_ne (seconds : ℚ) (hk : k' ≠ k) : (r.zexpireIn k seconds).zexpire k' = r.zexpire k' := by
  unfold zexpireIn
  split
  · rfl
  · split
    · rw [zexpire_putZset, if_neg hk]
    · exact update_of_ne hk _ _

@[simp] theorem clock_putZset (z : ZSet) : (r.putZset k z).clock = r.clock := rfl

@[simp] theorem clock_zexpireIn (seconds : ℚ) : (r.zexpireIn k seconds).clock = r.clock := by
  unfold zexpireIn
  split
  · rfl
  · split <;> rfl

theorem mem_of_mem_zrangeAll {r : Redis β} {k : String} {n : Int} {e : String × ℚ} (h : e ∈ r.zrangeAll k n) :
    e ∈ (r.zsets k).entries := by
  unfold zrangeAll at h
  split at h
  · exact h
  · exact List.mem_of_mem_take h

theorem zsets_advance (t : ℚ) : (r.advance t).zsets k = if live t (r.zexpire k) then r.zsets k else ∅ := rfl

theorem strings_zexpireIn (seconds : ℚ) : (r.zexpireIn k seconds).strings = r.strings := by
  unfold zexpireIn
  split
  · rfl
  · split <;> rfl

theorem hashes_hexpireIn {seconds : ℚ} (h : 0 < seconds) : (r.hexpireIn k seconds).hashes = r.hashes := by
  unfold hexpireIn
  split
  · rfl
  · rw [if_neg (not_le.mpr h)]

theorem hashes_zexpireIn (seconds : ℚ) : (r.zexpireIn k seconds).hashes = r.hashes := by
  unfold zexpireIn
  split
  · rfl
  · split <;> rfl

theorem strings_hexpireIn (seconds : ℚ) : (r.hexpireIn k seconds).strings = r.strings := by
  unfold hexpireIn
  split
  · rfl
  · split <;> rfl

theorem strings_advance (t : ℚ) : (r.advance t).strings k = (r.strings k).filter (live t ·.2) := rfl

/-- A later instant reads the same, whether or not the clock stopped on its way. -/
theorem get_advance_advance {t t' : ℚ} (h : t ≤ t') : ((r.advance t).advance t').get k = (r.advance t').get k := by
  rw [get, get, strings_advance, strings_advance, strings_advance, Option.filter_filter]
  congr 2
  funext e
  cases hd : e.2 with
  | none => rfl
  | some d => simpa [live, hd] using fun hlt => lt_of_le_of_lt h hlt

theorem strings_set (v : β) (ex : Option ℚ) :
    (r.set k v ex).strings k' = if k' = k then some (v, ex.map (r.clock + ·)) else r.strings k' := by
  simp [set, update_apply]

theorem strings_del : (r.del k).strings k' = if k' = k then none else r.strings k' := by
  simp [del, update_apply]

theorem strings_set_of_ne (v : β) (ex : Option ℚ) (hk : k' ≠ k) : (r.set k v ex).strings k' = r.strings k' := by
  rw [strings_set, if_neg hk]

theorem strings_del_of_ne (hk : k' ≠ k) : (r.del k).strings k' = r.strings k' := by
  rw [strings_del, if_neg hk]

theorem strings_setNx_of_ne (v : β) (ex : ℚ) (hk : k' ≠ k) : (r.setNx k v ex).2.strings k' = r.strings k' := by
  unfold setNx
  split
  · rfl
  · exact strings_set_of_ne r k k' v _ hk

theorem expire_of_some {v : β} {dl : Option ℚ} {seconds : ℚ} (hk : r.strings k = some (v, dl)) (hs : 0 < seconds) :
    r.expire k seconds = r.set k v (some seconds) := by
  rw [expire, hk]
  exact if_neg (not_le.mpr hs)

theorem strings_expire_of_ne (seconds : ℚ) (hk : k' ≠ k) : (r.expire k seconds).strings k' = r.strings k' := by
  unfold expire
  split
  · rfl
  · split
    · exact strings_del_of_ne r k k' hk
    · exact strings_set_of_ne r k k' _ _ hk

end Lemmas

def hide (hidden : String → Bool) (r : Redis β) : Redis β :=
  { r with
    strings := fun k => if hidden k then none else r.strings k
    zsets := fun k => if hidden k then ∅ else r.zsets k
    zexpire := fun k => if hidden k then none else r.zexpire k }

section Hide
variable (hidden : String → Bool) (r : Redis β)

theorem update_hide {α : Type} (f : String → α) (a d : α) {k : String} (hk : hidden k = false) :
    (fun k' => if hidden k' then d else Function.update f k a k') =
      Function.update (fun k' => if hidden k' then d else f k') k a := by
  funext k'
  by_cases h : k' = k
  · subst h
    simp [hk]
  · simp [h]

theorem update_hide_hidden {α : Type} (f : String → α) (a d : α) {k : String} (hk : hidden k = true) :
    (fun k' => if hidden k' then d else Function.update f k a k') = fun k' => if hidden k' then d else f k' := by
  funext k'
  by_cases h : k' = k
  · subst h
    simp [hk]
  · simp [h]

section Shown
variable {k : String} (hk : hidden k = false)
include hk

@[simp] theorem strings_hide : (r.hide hidden).strings k = r.strings k := by simp [hide, hk]

@[simp] theorem zsets_hide : (r.hide hidden).zsets k = r.zsets k := by simp [hide, hk]

@[simp] theorem zexpire_hide : (r.hide hidden).zexpire k = r.zexpire k := by simp [hide, hk]

@[simp] theorem get_hide : (r.hide hidden).get k = r.get k := by simp [get, hk]

@[simp] theorem existsKey_hide : (r.hide hidden).existsKey k = r.existsKey k := by simp [existsKey, hk]

@[simp] theorem zcard_hide : (r.hide hidden).zcard k = r.zcard k := by simp [zcard, hk]

@[simp] theorem zttl_hide : (r.hide hidden).zttl k = r.zttl k := by
  simp only [zttl, zcard_hide hidden r hk, zexpire_hide hidden r hk]
  rfl

theorem hide_set (v : β) (ex : Option ℚ) : (r.set k v ex).hide hidden = (r.hide hidden).set k v ex := by
  unfold set hide
  rw [update_hide hidden r.strings _ none hk]

theorem hide_del : (r.del k).hide hidden = (r.hide hidden).del k := by
  unfold del hide
  rw [update_hide hidden r.strings _ none hk]

theorem hide_expire (seconds : ℚ) : (r.expire k seconds).hide hidden = (r.hide hidden).expire k seconds := by
  unfold expire
  rw [strings_hide hidden r hk]
  split
  · rfl
  · split
    · exact hide_del hidden r hk
    · exact hide_set hidden r hk _ _

theorem hide_putZset (z : ZSet) : (r.putZset k z).hide hidden = (r.hide hidden).putZset k z := by
  unfold putZset deadline
  rw [zsets_hide hidden r hk, zexpire_hide hidden r hk]
  unfold hide
  rw [update_hide hidden r.zsets z ∅ hk, update_hide hidden r.zexpire _ none hk]

theorem hide_zadd (q : ℚ) (m : String) : (r.zadd k q m).hide hidden = (r.hide hidden).zadd k q m := by
  unfold zadd
  rw [hide_putZset hidden r hk, zsets_hide hidden r hk]

theorem hide_zexpireIn (seconds : ℚ) : (r.zexpireIn k seconds).hide hidden = (r.hide hidden).zexpireIn k seconds := by
  unfold zexpireIn
  rw [zcard_hide hidden r hk]
  split
  · rfl
  · split
    · exact hide_putZset hidden r hk ∅
    · unfold hide
      rw [update_hide hidden r.zexpire _ none hk]

end Shown

theorem hide_hexpireIn (k : String) (seconds : ℚ) :
    (r.hexpireIn k seconds).hide hidden = (r.hide hidden).hexpireIn k seconds := by
  have hh : (r.hide hidden).hashes = r.hashes := rfl
  unfold hexpireIn
  rw [hh]
  split
  · rfl
  · split <;> rfl

section Hidden
variable {k : String} (hk : hidden k = true)
include hk

theorem hide_set_hidden (v : β) (ex : Option ℚ) : (r.set k v ex).hide hidden = r.hide hidden := by
  unfold set hide
  rw [update_hide_hidden hidden r.strings _ none hk]

theorem hide_del_hidden : (r.del k).hide hidden = r.hide hidden := by
  unfold del hide
  rw [update_hide_hidden hidden r.strings _ none hk]

theorem hide_expire_hidden (seconds : ℚ) : (r.expire k seconds).hide hidden = r.hide hidden := by
  unfold expire
  split
  · rfl
  · split
    · exact hide_del_hidden hidden r hk
    · exact hide_set_hidden hidden r hk _ _

theorem hide_zadd_hidden (q : ℚ) (m : String) : (r.zadd k q m).hide hidden = r.hide hidden := by
  unfold zadd putZset hide
  rw [update_hide_hidden hidden r.zsets _ ∅ hk, update_hide_hidden hidden r.zexpire _ none hk]

end Hidden

end Hide

end Redis

end AsyncScheduler
