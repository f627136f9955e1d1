import AsyncScheduler.Shared.Redis

/-!
# One keyspace for all types

Every key holds one value of one type, a string, a set, a hash or a sorted set, and may have a
deadline.
-/

namespace AsyncScheduler

theorem lookup_filter_key {β : Type} (p : String → Bool) (l : List (String × β)) (k : String) :
    (l.filter fun e => p e.1).lookup k = if p k then l.lookup k else none := by
  induction l with
  | nil => simp
  | cons e l ih =>
    obtain ⟨x, y⟩ := e
    by_cases hk : k = x
    · subst hk
      cases hp : p k <;> simp [hp, ih]
    · have hne : (k == x) = false := beq_eq_false_iff_ne.mpr hk
      cases hp : p x <;> simp [List.lookup_cons, hp, hne, ih]

inductive Value (β : Type) where
  | string (v : β)
  | set (members : List String)
  | hash (fields : List (String × String))
  | zset (scores : List (String × ℚ))
  deriving DecidableEq

structure Keyspace (β : Type) where
  clock : ℚ
  entries : String → Option (Value β × Option ℚ)

namespace Keyspace
variable {β : Type}

def empty : Keyspace β := ⟨0, fun _ => none⟩

/-- The clock reaches `t`: every key whose deadline has come is gone. -/
def advance (r : Keyspace β) (t : ℚ) : Keyspace β :=
  ⟨t, fun k => (r.entries k).filter (Redis.live t ·.2)⟩

def existsKey (r : Keyspace β) (k : String) : Bool := (r.entries k).isSome

def put (r : Keyspace β) (k : String) (v : Value β) (deadline : Option ℚ) : Keyspace β :=
  { r with entries := Function.update r.entries k (some (v, deadline)) }

def del (r : Keyspace β) (k : String) : Keyspace β := { r with entries := Function.update r.entries k none }

def get (r : Keyspace β) (k : String) : Option (Option β) :=
  match r.entries k with
  | none => some none
  | some (.string v, _) => some (some v)
  | some _ => none

/-- A time to live that `SET` accepts. -/
def validEx (ex : Option ℚ) : Bool := ex.all (0 < ·)

/-- `SET` replaces a value of any type, and its deadline. -/
def set (r : Keyspace β) (k : String) (v : β) (ex : Option ℚ) : Keyspace β :=
  r.put k (.string v) (ex.map (r.clock + ·))

def expire (r : Keyspace β) (k : String) (seconds : ℚ) : Keyspace β :=
  match r.entries k with
  | none => r
  | some (v, _) => if seconds ≤ 0 then r.del k else r.put k v (some (r.clock + seconds))

theorem existsKey_of_get {r : Keyspace β} {k : String} {v : β} (h : r.get k = some (some v)) : r.existsKey k = true := by
  unfold get at h
  unfold existsKey
  cases hk : r.entries k with
  | none =>
    rw [hk] at h
    cases h
  | some e => rfl

@[simp] theorem get_set_self (r : Keyspace β) (k : String) (v : β) (ex : Option ℚ) :
    (r.set k v ex).get k = some (some v) := by
  simp [get, set, put]

def deadline (r : Keyspace β) (k : String) : Option ℚ := (r.entries k).bind Prod.snd

def smembers (r : Keyspace β) (k : String) : Option (List String) :=
  match r.entries k with
  | none => some []
  | some (.set ms, _) => some ms
  | some _ => none

def sadd (r : Keyspace β) (k m : String) : Option (Keyspace β) :=
  (r.smembers k).map fun ms => if m ∈ ms then r else r.put k (.set (ms ++ [m])) (r.deadline k)

def srem (r : Keyspace β) (k m : String) : Option (Keyspace β) :=
  (r.smembers k).map fun ms =>
    if m ∉ ms then r
    else if ms.erase m = [] then r.del k
    else r.put k (.set (ms.erase m)) (r.deadline k)

def hgetall (r : Keyspace β) (k : String) : Option (List (String × String)) :=
  match r.entries k with
  | none => some []
  | some (.hash fs, _) => some fs
  | some _ => none

def hget (r : Keyspace β) (k f : String) : Option (Option String) := (r.hgetall k).map (List.lookup f)

def hset (r : Keyspace β) (k f v : String) : Option (Keyspace β) :=
  (r.hgetall k).map fun fs => r.put k (.hash ((f, v) :: fs.filter (·.1 ≠ f))) (r.deadline k)

def hdel (r : Keyspace β) (k f : String) : Option (Keyspace β) :=
  (r.hgetall k).map fun fs =>
    if fs.lookup f = none then r
    else if fs.filter (·.1 ≠ f) = [] then r.del k
    else r.put k (.hash (fs.filter (·.1 ≠ f))) (r.deadline k)

def zrange (r : Keyspace β) (k : String) : Option (List (String × ℚ)) :=
  match r.entries k with
  | none => some []
  | some (.zset ms, _) => some ms
  | some _ => none

def zadd (r : Keyspace β) (k : String) (score : ℚ) (m : String) : Option (Keyspace β) :=
  (r.zrange k).map fun ms => r.put k (.zset ((m, score) :: ms.filter (·.1 ≠ m))) (r.deadline k)

def touch (r : Keyspace β) (k : String) (f : Option (Value β × Option ℚ) → Option (Value β × Option ℚ)) : Keyspace β :=
  { r with entries := Function.update r.entries k (f (r.entries k)) }

/-- What `SADD` leaves at its key, by what it finds there. -/
def added (m : String) : Option (Value β × Option ℚ) → Option (Value β × Option ℚ)
  | none => some (.set [m], none)
  | some (.set ms, dl) => some (.set (if m ∈ ms then ms else ms ++ [m]), dl)
  | e => e

/-- What `SREM` leaves at its key. -/
def removed (m : String) : Option (Value β × Option ℚ) → Option (Value β × Option ℚ)
  | some (.set ms, dl) =>
    if m ∉ ms then some (.set ms, dl) else if ms.erase m = [] then none else some (.set (ms.erase m), dl)
  | e => e

/-- What `HSET` leaves at its key. -/
def assigned (f v : String) : Option (Value β × Option ℚ) → Option (Value β × Option ℚ)
  | none => some (.hash [(f, v)], none)
  | some (.hash fs, dl) => some (.hash ((f, v) :: fs.filter (·.1 ≠ f)), dl)
  | e => e

section
variable (r : Keyspace β) (k k' m : String) {f : Option (Value β × Option ℚ) → Option (Value β × Option ℚ)}

theorem entries_touch (f : Option (Value β × Option ℚ) → Option (Value β × Option ℚ)) :
    (r.touch k f).entries k' = if k' = k then f (r.entries k) else r.entries k' := by
  simp [touch, Function.update_apply]

theorem touch_eq_self (h : f (r.entries k) = r.entries k) : r.touch k f = r := by
  rw [touch, h, Function.update_eq_self]

theorem set_eq_touch (v : β) (ex : Option ℚ) :
    r.set k v ex = r.touch k fun _ => some (.string v, ex.map (r.clock + ·)) := rfl

theorem del_eq_touch : r.del k = r.touch k fun _ => none := rfl

theorem sadd_eq_touch : (r.sadd k m).getD r = r.touch k (added m) := by
  unfold sadd smembers
  match hk : r.entries k with
  | none => simp [touch, put, added, deadline, hk]
  | some (.set ms, dl) =>
    by_cases hm : m ∈ ms
    · simpa [hm] using (r.touch_eq_self k (by simp [added, hk, hm])).symm
    · simp [touch, put, added, deadline, hk, hm]
  | some (.string v, dl) => exact (r.touch_eq_self k (by simp [added, hk])).symm
  | some (.hash fs, dl) => exact (r.touch_eq_self k (by simp [added, hk])).symm
  | some (.zset ms, dl) => exact (r.touch_eq_self k (by simp [added, hk])).symm

theorem touch_added_of_wrongType {r : Keyspace β} {k m : String} (h : r.smembers k = none) : r.touch k (added m) = r := by
  rw [← sadd_eq_touch, sadd, h]
  rfl

theorem srem_eq_touch : (r.srem k m).getD r = r.touch k (removed m) := by
  unfold srem smembers
  match hk : r.entries k with
  | none => simpa using (r.touch_eq_self k (by simp [removed, hk])).symm
  | some (.set ms, dl) =>
    by_cases hm : m ∈ ms
    · have hin : ¬ m ∉ ms := not_not.mpr hm
      simp only [Option.map_some, Option.getD_some, if_neg hin, touch, removed, hk, put, del, deadline, Option.bind_some]
      split <;> rfl
    · simpa [hm] using (r.touch_eq_self k (by simp [removed, hk, hm])).symm
  | some (.string v, dl) => exact (r.touch_eq_self k (by simp [removed, hk])).symm
  | some (.hash fs, dl) => exact (r.touch_eq_self k (by simp [removed, hk])).symm
  | some (.zset ms, dl) => exact (r.touch_eq_self k (by simp [removed, hk])).symm

theorem touch_removed_of_wrongType {r : Keyspace β} {k m : String} (h : r.smembers k = none) :
    r.touch k (removed m) = r := by
  rw [← srem_eq_touch, srem, h]
  rfl

theorem hset_eq_touch (f v : String) : (r.hset k f v).getD r = r.touch k (assigned f v) := by
  unfold hset hgetall
  match hk : r.entries k with
  | none => simp [touch, put, assigned, deadline, hk]
  | some (.hash fs, dl) => simp [touch, put, assigned, deadline, hk]
  | some (.set ms, dl) => exact (r.touch_eq_self k (by simp [assigned, hk])).symm
  | some (.string v, dl) => exact (r.touch_eq_self k (by simp [assigned, hk])).symm
  | some (.zset ms, dl) => exact (r.touch_eq_self k (by simp [assigned, hk])).symm

theorem smembers_touch (hk : k' ≠ k) :
    (r.touch k f).smembers k' = r.smembers k' := by
  rw [smembers, smembers, entries_touch, if_neg hk]

theorem get_touch (hk : k' ≠ k) :
    (r.touch k f).get k' = r.get k' := by
  rw [get, get, entries_touch, if_neg hk]

theorem smembers_touch_added (h : r.smembers k ≠ none) : (r.touch k (added m)).smembers k ≠ none := by
  unfold smembers at h ⊢
  rw [entries_touch, if_pos rfl]
  match hk : r.entries k with
  | none => simp [added]
  | some (.set ms, dl) => simp [added]
  | some (.string v, dl) => simp [hk] at h
  | some (.hash fs, dl) => simp [hk] at h
  | some (.zset ms, dl) => simp [hk] at h

theorem smembers_advance (t : ℚ) (h : r.smembers k ≠ none) : (r.advance t).smembers k ≠ none := by
  unfold smembers at h ⊢
  unfold advance
  match hk : r.entries k with
  | none => simp [hk]
  | some (.set ms, dl) => cases hl : Redis.live t dl <;> simp [hk, Option.filter, hl]
  | some (.string v, dl) => simp [hk] at h
  | some (.hash fs, dl) => simp [hk] at h
  | some (.zset ms, dl) => simp [hk] at h

end

/-- Two keyspaces that agree on some of the keys. -/
structure SameOn (K : String → Prop) (r r' : Keyspace β) : Prop where
  clock : r.clock = r'.clock
  entries : ∀ k, K k → r.entries k = r'.entries k

namespace SameOn
variable {K : String → Prop} {r r' : Keyspace β} {k : String}

theorem refl (K : String → Prop) (r : Keyspace β) : SameOn K r r := ⟨rfl, fun _ _ => rfl⟩

theorem trans {r'' : Keyspace β} (h : SameOn K r r') (h' : SameOn K r' r'') : SameOn K r r'' :=
  ⟨h.clock.trans h'.clock, fun k hk => (h.entries k hk).trans (h'.entries k hk)⟩

theorem mono {K' : String → Prop} (h : SameOn K r r') (hK : ∀ k, K' k → K k) : SameOn K' r r' :=
  ⟨h.clock, fun k hk => h.entries k (hK k hk)⟩

section
variable (h : SameOn K r r')
include h

theorem touch (f : Option (Value β × Option ℚ) → Option (Value β × Option ℚ)) :
    SameOn K (r.touch k f) (r'.touch k f) where
  clock := h.clock
  entries k' hk' := by
    rw [entries_touch, entries_touch]
    by_cases heq : k' = k
    · subst heq
      rw [h.entries k' hk']
    · rw [if_neg heq, if_neg heq, h.entries k' hk']

theorem touch_left (hk : ¬ K k) (f : Option (Value β × Option ℚ) → Option (Value β × Option ℚ)) :
    SameOn K (r.touch k f) r' where
  clock := h.clock
  entries k' hk' := by
    have hne : k' ≠ k := fun heq => hk (heq ▸ hk')
    rw [entries_touch, if_neg hne, h.entries k' hk']

theorem advance (t : ℚ) : SameOn K (r.advance t) (r'.advance t) where
  clock := rfl
  entries k hk := congrArg (Option.filter _) (h.entries k hk)

theorem smembers (hk : K k) : r.smembers k = r'.smembers k := by
  rw [Keyspace.smembers, Keyspace.smembers, h.entries k hk]

theorem get (hk : K k) : r.get k = r'.get k := by
  rw [Keyspace.get, Keyspace.get, h.entries k hk]

theorem existsKey (hk : K k) : r.existsKey k = r'.existsKey k := by
  rw [Keyspace.existsKey, Keyspace.existsKey, h.entries k hk]

end

end SameOn

def IsSet (r : Keyspace β) (k : String) (ms : List String) : Prop :=
  r.entries k = none ∧ ms = [] ∨ r.entries k = some (.set ms, none)

def IsHash (r : Keyspace β) (k : String) (fs : List (String × String)) : Prop :=
  r.entries k = none ∧ fs = [] ∨ r.entries k = some (.hash fs, none)

theorem lookup_eq_none_iff {f : String} {fs : List (String × String)} : fs.lookup f = none ↔ ∀ e ∈ fs, e.1 ≠ f := by
  induction fs with
  | nil => simp
  | cons e fs ih =>
    obtain ⟨x, y⟩ := e
    by_cases hx : f = x
    · subst hx
      simp
    · have hne : (f == x) = false := beq_eq_false_iff_ne.mpr hx
      simp [List.lookup_cons, hne, ih, Ne.symm hx]

section
variable {r : Keyspace β} {k k' : String} {ms : List String} {fs : List (String × String)}

theorem IsSet.smembers (h : r.IsSet k ms) : r.smembers k = some ms := by
  unfold Keyspace.smembers
  rcases h with ⟨hk, rfl⟩ | hk <;> rw [hk]

theorem IsHash.hgetall (h : r.IsHash k fs) : r.hgetall k = some fs := by
  unfold Keyspace.hgetall
  rcases h with ⟨hk, rfl⟩ | hk <;> rw [hk]

theorem IsSet.congr {r' : Keyspace β} (h : r.IsSet k ms) (hk : r'.entries k = r.entries k) : r'.IsSet k ms := by
  rw [IsSet, hk]
  exact h

theorem IsHash.congr {r' : Keyspace β} (h : r.IsHash k fs) (hk : r'.entries k = r.entries k) : r'.IsHash k fs := by
  rw [IsHash, hk]
  exact h

theorem IsSet.advance (h : r.IsSet k ms) (t : ℚ) : (r.advance t).IsSet k ms := by
  refine h.congr ?_
  rcases h with ⟨hk, -⟩ | hk <;> simp [Keyspace.advance, hk, Redis.live]

theorem IsHash.advance (h : r.IsHash k fs) (t : ℚ) : (r.advance t).IsHash k fs := by
  refine h.congr ?_
  rcases h with ⟨hk, -⟩ | hk <;> simp [Keyspace.advance, hk, Redis.live]

theorem IsSet.del (r : Keyspace β) (k : String) : (r.del k).IsSet k [] := .inl ⟨by simp [Keyspace.del], rfl⟩

theorem IsSet.sadd (h : r.IsSet k ms) (m : String) :
    ∃ r' ms', r.sadd k m = some r' ∧ r'.IsSet k ms' ∧ (∀ x, x ∈ ms' ↔ x = m ∨ x ∈ ms) ∧
      ∀ k', k' ≠ k → r'.entries k' = r.entries k' := by
  rw [Keyspace.sadd, h.smembers]
  by_cases hm : m ∈ ms
  · refine ⟨r, ms, by simp [hm], h, fun x => ?_, fun _ _ => rfl⟩
    constructor
    · exact .inr
    · rintro (rfl | hx)
      · exact hm
      · exact hx
  · have hd : r.deadline k = none := by
      rcases h with ⟨hk, -⟩ | hk <;> simp [deadline, hk]
    refine ⟨r.put k (.set (ms ++ [m])) none, ms ++ [m], by simp [hm, hd], .inr (by simp [put]), fun x => ?_,
      fun k' hk' => by simp [put, hk']⟩
    rw [List.mem_append, List.mem_singleton]
    exact or_comm

theorem IsSet.srem (h : r.IsSet k ms) (m : String) :
    ∃ r' ms', r.srem k m = some r' ∧ r'.IsSet k ms' ∧ (∀ x ∈ ms', x ∈ ms) ∧ (∀ x ∈ ms, x ≠ m → x ∈ ms') ∧
      ∀ k', k' ≠ k → r'.entries k' = r.entries k' := by
  have hd : r.deadline k = none := by
    rcases h with ⟨hk, -⟩ | hk <;> simp [deadline, hk]
  rw [Keyspace.srem, h.smembers]
  by_cases hm : m ∈ ms
  · have hs : ∀ x ∈ ms.erase m, x ∈ ms := fun x hx => List.mem_of_mem_erase hx
    have hr : ∀ x ∈ ms, x ≠ m → x ∈ ms.erase m := fun x hx hne => (List.mem_erase_of_ne hne).mpr hx
    have hin : ¬ m ∉ ms := not_not.mpr hm
    by_cases he : ms.erase m = []
    · refine ⟨r.del k, [], by simp only [Option.map_some, if_neg hin, if_pos he], IsSet.del r k, ?_, ?_, fun k' hk' => by simp [Keyspace.del, hk']⟩
      · exact fun x hx => absurd hx List.not_mem_nil
      · exact fun x hx hne => he ▸ hr x hx hne
    · refine ⟨r.put k (.set (ms.erase m)) none, ms.erase m, ?_, .inr (by simp [put]), hs, hr,
        fun k' hk' => by simp [put, hk']⟩
      simp only [Option.map_some, if_neg hin, if_neg he, hd]
  · exact ⟨r, ms, by simp [hm], h, fun x hx => hx, fun x hx _ => hx, fun _ _ => rfl⟩

theorem IsHash.hset (h : r.IsHash k fs) (f v : String) :
    ∃ r', r.hset k f v = some r' ∧ r'.IsHash k ((f, v) :: fs.filter (·.1 ≠ f)) ∧
      ∀ k', k' ≠ k → r'.entries k' = r.entries k' := by
  have hd : r.deadline k = none := by
    rcases h with ⟨hk, -⟩ | hk <;> simp [deadline, hk]
  refine ⟨r.put k (.hash ((f, v) :: fs.filter (·.1 ≠ f))) none, ?_, .inr (by simp [put]), fun k' hk' => by simp [put, hk']⟩
  rw [Keyspace.hset, h.hgetall, hd]
  rfl

theorem IsHash.hdel (h : r.IsHash k fs) (f : String) :
    ∃ r', r.hdel k f = some r' ∧ r'.IsHash k (fs.filter (·.1 ≠ f)) ∧ ∀ k', k' ≠ k → r'.entries k' = r.entries k' := by
  have hd : r.deadline k = none := by
    rcases h with ⟨hk, -⟩ | hk <;> simp [deadline, hk]
  rw [Keyspace.hdel, h.hgetall]
  by_cases hf : fs.lookup f = none
  · have hs : fs.filter (·.1 ≠ f) = fs := by
      refine List.filter_eq_self.mpr fun e he => ?_
      simpa using lookup_eq_none_iff.mp hf e he
    refine ⟨r, by simp [hf], ?_, fun _ _ => rfl⟩
    rw [hs]
    exact h
  · by_cases hem : fs.filter (·.1 ≠ f) = []
    · refine ⟨r.del k, by simp only [Option.map_some, if_neg hf, if_pos hem], ?_, fun k' hk' => by simp [Keyspace.del, hk']⟩
      exact .inl ⟨by simp [Keyspace.del], hem⟩
    · refine ⟨r.put k (.hash (fs.filter (·.1 ≠ f))) none, ?_, .inr (by simp [put]), fun k' hk' => by simp [put, hk']⟩
      simp only [Option.map_some, if_neg hf, if_neg hem, hd]

end
end Keyspace

end AsyncScheduler
