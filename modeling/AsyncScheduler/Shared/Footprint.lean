import AsyncScheduler.Shared.Interleaving
import AsyncScheduler.Shared.Redis

/-!
# The keys an operation uses

Everything a keyspace has under one key is its cell. An elementary operation acts at one key: the
new cell depends on the old one and the clock alone.
-/

namespace AsyncScheduler

variable {β α : Type}

structure Cell (β : Type) where
  string : Option (β × Option ℚ)
  zset : ZSet
  zexpire : Option ℚ
  hash : List (String × HashValue)
  hexpire : Option ℚ
  set : List String

namespace Redis
variable {K : String → Prop} {op : Redis β → Redis β}

def cell (r : Redis β) (k : String) : Cell β :=
  ⟨r.strings k, r.zsets k, r.zexpire k, r.hashes k, r.hexpire k, r.sets k⟩

def put (r : Redis β) (k : String) (x : Cell β) : Redis β where
  clock := r.clock
  strings := Function.update r.strings k x.string
  zsets := Function.update r.zsets k x.zset
  zexpire := Function.update r.zexpire k x.zexpire
  hashes := Function.update r.hashes k x.hash
  hexpire := Function.update r.hexpire k x.hexpire
  sets := Function.update r.sets k x.set

@[simp] theorem put_cell (r : Redis β) (k : String) : r.put k (r.cell k) = r := by
  simp [put, cell]

theorem cell_put (r : Redis β) (k k' : String) (x : Cell β) : (r.put k x).cell k' = if k' = k then x else r.cell k' := by
  by_cases h : k' = k
  · subst h
    simp [put, cell]
  · simp [put, cell, h]

/-- The same instant and the same cells at the keys of `K`. -/
structure SameAt (K : String → Prop) (r r' : Redis β) : Prop where
  clock : r.clock = r'.clock
  cells : ∀ k, K k → r.cell k = r'.cell k

namespace SameAt
variable {K K' : String → Prop} {r r' r'' : Redis β}

theorem refl (r : Redis β) : SameAt K r r := ⟨rfl, fun _ _ => rfl⟩

theorem symm (h : SameAt K r r') : SameAt K r' r := ⟨h.clock.symm, fun k hk => (h.cells k hk).symm⟩

theorem trans (h : SameAt K r r') (h' : SameAt K r' r'') : SameAt K r r'' :=
  ⟨h.clock.trans h'.clock, fun k hk => (h.cells k hk).trans (h'.cells k hk)⟩

theorem mono (h : SameAt K r r') (hK : ∀ k, K' k → K k) : SameAt K' r r' :=
  ⟨h.clock, fun k hk => h.cells k (hK k hk)⟩

theorem advance (h : SameAt K r r') (t : ℚ) : SameAt K (r.advance t) (r'.advance t) := by
  refine ⟨rfl, fun k hk => ?_⟩
  have hc := h.cells k hk
  simp only [cell, Cell.mk.injEq] at hc
  obtain ⟨hs, hzs, hz, hh, hhe, hset⟩ := hc
  simp only [cell, Redis.advance, hs, hzs, hz, hh, hhe, hset]

section Reads
variable {k : String} (h : SameAt K r r') (hk : K k)
include h hk

theorem strings : r.strings k = r'.strings k := congrArg Cell.string (h.cells k hk)

theorem zsets : r.zsets k = r'.zsets k := congrArg Cell.zset (h.cells k hk)

theorem hashes : r.hashes k = r'.hashes k := congrArg Cell.hash (h.cells k hk)

theorem get : r.get k = r'.get k := by rw [Redis.get, Redis.get, h.strings hk]

theorem zcard : r.zcard k = r'.zcard k := by rw [Redis.zcard, Redis.zcard, h.zsets hk]

theorem hget (f : String) : r.hget k f = r'.hget k f := by rw [Redis.hget, Redis.hget, h.hashes hk]

theorem zttl : r.zttl k = r'.zttl k := by
  have hexpire : r.zexpire k = r'.zexpire k := congrArg Cell.zexpire (h.cells k hk)
  rw [Redis.zttl, Redis.zttl, h.zcard hk, h.clock, hexpire]

theorem zrangeAll (n : Int) : r.zrangeAll k n = r'.zrangeAll k n := by rw [Redis.zrangeAll, Redis.zrangeAll, h.zsets hk]

theorem zrangeTo (max : ℚ) : r.zrangeTo k max = r'.zrangeTo k max := by rw [Redis.zrangeTo, Redis.zrangeTo, h.zsets hk]

end Reads

end SameAt

/-- What the operation does, it does to the cell of `k`. -/
def ActsAt (k : String) (op : Redis β → Redis β) : Prop := ∃ f : ℚ → Cell β → Cell β, ∀ r, op r = r.put k (f r.clock (r.cell k))

namespace ActsAt
variable {K : String → Prop} {k : String} {op : Redis β → Redis β}

theorem same (hop : ActsAt k op) {r r' : Redis β} (h : SameAt K r r') (hk : K k) : SameAt K (op r) (op r') := by
  obtain ⟨f, hf⟩ := hop
  rw [hf, hf]
  refine ⟨h.clock, fun k' hk' => ?_⟩
  rw [cell_put, cell_put, h.clock, h.cells k hk, h.cells k' hk']

theorem frame (hop : ActsAt k op) (hk : ¬ K k) (r : Redis β) : SameAt K r (op r) := by
  obtain ⟨f, hf⟩ := hop
  rw [hf]
  refine ⟨rfl, fun k' hk' => ?_⟩
  have hne : k' ≠ k := fun heq => hk (heq ▸ hk')
  rw [cell_put, if_neg hne]

/-- An operation that depends on the cell and the clock may also do nothing or something else there. -/
theorem ite {c : ℚ → Cell β → Prop} [∀ t x, Decidable (c t x)] {op op' : Redis β → Redis β} (hop : ActsAt k op)
    (hop' : ActsAt k op') : ActsAt k fun r => if c r.clock (r.cell k) then op r else op' r := by
  obtain ⟨f, hf⟩ := hop
  obtain ⟨f', hf'⟩ := hop'
  refine ⟨fun t x => if c t x then f t x else f' t x, fun r => ?_⟩
  dsimp only
  split
  · exact hf r
  · exact hf' r

end ActsAt

theorem actsAt_id (k : String) : ActsAt k (id : Redis β → Redis β) := ⟨fun _ x => x, fun r => (put_cell r k).symm⟩

theorem actsAt_set (k : String) (v : β) (ex : Option ℚ) : ActsAt k (·.set k v ex) :=
  ⟨fun t x => { x with string := some (v, ex.map (t + ·)) }, fun r => by simp [put, cell, Redis.set]⟩

theorem actsAt_del (k : String) : ActsAt k (del · k : Redis β → Redis β) :=
  ⟨fun _ x => { x with string := none }, fun r => by simp [put, cell, del]⟩

/-- What `EXPIRE` leaves of a string at the time `t`. -/
def expiring (seconds t : ℚ) (x : Cell β) : Cell β :=
  match x.string with
  | none => x
  | some (v, _) => { x with string := if seconds ≤ 0 then none else some (v, some (t + seconds)) }

theorem actsAt_expire (k : String) (seconds : ℚ) : ActsAt k (expire · k seconds : Redis β → Redis β) := by
  refine ⟨expiring seconds, fun r => ?_⟩
  have hc : (r.cell k).string = r.strings k := rfl
  unfold expiring
  rw [hc]
  dsimp only [expire]
  rcases hk : r.strings k with _ | ⟨v, d⟩
  · exact (put_cell r k).symm
  · dsimp only
    split
    · simp [put, cell, del]
    · simp [put, cell, Redis.set]

theorem actsAt_putZset (k : String) (f : ZSet → ZSet) : ActsAt k fun r : Redis β => r.putZset k (f (r.zsets k)) :=
  ⟨fun _ x => { x with
    zset := f x.zset
    zexpire := if (f x.zset).card = 0 then none else if x.zset.card = 0 then none else x.zexpire },
    fun r => by
      simp only [put, cell, putZset, deadline, Function.update_eq_self]
      rfl⟩

theorem actsAt_zadd (k : String) (s : ℚ) (m : String) : ActsAt k (zadd · k s m : Redis β → Redis β) :=
  actsAt_putZset k (·.add m s)

theorem actsAt_zrem (k m : String) : ActsAt k (zrem · k m : Redis β → Redis β) := actsAt_putZset k (·.remove m)

theorem actsAt_zremAll (k : String) (ms : List String) : ActsAt k (zremAll · k ms : Redis β → Redis β) :=
  actsAt_putZset k (·.removeAll ms)

theorem actsAt_zexpireIn (k : String) (seconds : ℚ) : ActsAt k (zexpireIn · k seconds : Redis β → Redis β) := by
  have hke : ActsAt k fun r : Redis β =>
      ({ r with zexpire := Function.update r.zexpire k (some (r.clock + seconds)) } : Redis β) :=
    ⟨fun t x => { x with zexpire := some (t + seconds) }, fun r => by simp [put, cell]⟩
  have he : ActsAt k fun r : Redis β => r.putZset k ∅ := actsAt_putZset k fun _ => ∅
  have hi := ActsAt.ite (c := fun _ _ => seconds ≤ 0) he hke
  exact ActsAt.ite (c := fun _ x => x.zset.card = 0) (actsAt_id k) hi

theorem actsAt_hset (k f : String) (v : Redis β → HashValue) (hv : ∃ g : Cell β → HashValue, ∀ r, v r = g (r.cell k)) :
    ActsAt k fun r : Redis β => r.hset k f (v r) := by
  obtain ⟨g, hg⟩ := hv
  refine ⟨fun _ x => { x with
    hash := (f, g x) :: x.hash.filter (·.1 ≠ f)
    hexpire := if x.hash.isEmpty then none else x.hexpire }, fun r => ?_⟩
  dsimp only
  rw [hg]
  by_cases he : (r.hashes k).isEmpty = true
  · simp [put, cell, hset, he]
  · simp [put, cell, hset, he]

theorem actsAt_hincrby (k f : String) (n : ℚ) : ActsAt k (hincrby · k f n : Redis β → Redis β) :=
  actsAt_hset k f _ ⟨fun x => .num (((x.hash.lookup f).bind HashValue.tonumber).getD 0 + n), fun _ => rfl⟩

theorem actsAt_hexpireIn (k : String) (seconds : ℚ) : ActsAt k (hexpireIn · k seconds : Redis β → Redis β) := by
  have hke : ActsAt k fun r : Redis β =>
      ({ r with hexpire := Function.update r.hexpire k (some (r.clock + seconds)) } : Redis β) :=
    ⟨fun t x => { x with hexpire := some (t + seconds) }, fun r => by simp [put, cell]⟩
  have he : ActsAt k fun r : Redis β =>
      ({ r with hashes := Function.update r.hashes k [], hexpire := Function.update r.hexpire k none } : Redis β) :=
    ⟨fun _ x => { x with hash := [], hexpire := none }, fun r => by simp [put, cell]⟩
  have hi := ActsAt.ite (c := fun _ _ => seconds ≤ 0) he hke
  exact ActsAt.ite (c := fun _ x => x.hash.isEmpty = true) (actsAt_id k) hi

theorem actsAt_sadd (k m : String) : ActsAt k (sadd · k m : Redis β → Redis β) :=
  ⟨fun _ x => { x with set := if m ∈ x.set then x.set else m :: x.set }, fun r => by
    simp only [put, cell, sadd, Function.update_eq_self]
    rfl⟩

/-- An operation that reads and changes keys of `K` alone. -/
structure Preserves (K : String → Prop) (op : Redis β → Redis β) : Prop where
  same : ∀ r r', SameAt K r r' → SameAt K (op r) (op r')
  frame : ∀ r, SameAt (fun k => ¬ K k) r (op r)

theorem ActsAt.keeps {k : String} (hop : ActsAt k op) (hk : K k) :
    Preserves K op := ⟨fun _ _ h => hop.same h hk, fun r => hop.frame (fun hn => hn hk) r⟩

theorem Preserves.comp {op' : Redis β → Redis β} (hop' : Preserves K op') (hop : Preserves K op) :
    Preserves K fun r => op' (op r) :=
  ⟨fun r r' h => hop'.same _ _ (hop.same r r' h), fun r => (hop.frame r).trans (hop'.frame (op r))⟩

/-- A script that reads and changes keys of `K` alone, its reply included. -/
structure Within (K : String → Prop) (f : Redis β → α × Redis β) : Prop where
  same : ∀ r r', SameAt K r r' → (f r).1 = (f r').1 ∧ SameAt K (f r).2 (f r').2
  frame : ∀ r, SameAt (fun k => ¬ K k) r (f r).2

namespace Within
variable {K : String → Prop} {γ : Type}

theorem reply (a : Redis β → α) {op : Redis β → Redis β} (ha : ∀ r r', SameAt K r r' → a r = a r') (hop : Preserves K op) :
    Within K fun r => (a r, op r) := ⟨fun r r' h => ⟨ha r r' h, hop.same r r' h⟩, hop.frame⟩

theorem answer (a : α) : Within K fun r : Redis β => (a, r) :=
  ⟨fun _ _ h => ⟨rfl, h⟩, fun r => SameAt.refl r⟩

theorem state {f : Redis β → α × Redis β} (hf : Within K f) : Preserves K fun r => (f r).2 :=
  ⟨fun r r' h => (hf.same r r' h).2, hf.frame⟩

theorem read (a : Redis β → γ) (ha : ∀ r r', SameAt K r r' → a r = a r') {f : γ → Redis β → α × Redis β}
    (hf : ∀ x, Within K (f x)) : Within K fun r => f (a r) r := by
  constructor
  · intro r r' h
    rw [ha r r' h]
    exact (hf (a r')).same r r' h
  · exact fun r => (hf (a r)).frame r

theorem bind {f : Redis β → γ × Redis β} {g : γ → Redis β → α × Redis β} (hf : Within K f) (hg : ∀ x, Within K (g x)) :
    Within K fun r => g (f r).1 (f r).2 := by
  constructor
  · intro r r' h
    obtain ⟨hr, hs⟩ := hf.same r r' h
    rw [hr]
    exact (hg (f r').1).same _ _ hs
  · intro r
    exact (hf.frame r).trans ((hg (f r).1).frame (f r).2)

end Within

end Redis

section
variable {κ κ' ι σ ε γ ρ η : Type}

def Prog.embed (f : κ → κ') : Prog κ ι σ ε α → Prog κ' ι σ ε α
  | .ret a => .ret a
  | .raise e => .raise e
  | .act c n => .act (f c) fun i s => (n i s).embed f

theorem Prog.runWith_embed {apply : κ → ι → σ → σ} {apply' : κ' → ι → σ → σ} {f : κ → κ'}
    (ha : ∀ c, apply' (f c) = apply c) (p : Prog κ ι σ ε α) (i : ι) (s : σ) :
    (p.embed f).runWith apply' i s = p.runWith apply i s := by
  induction p generalizing s with
  | ret a => rfl
  | raise e => rfl
  | act c n ih =>
    rw [Prog.embed, Prog.runWith_act, Prog.runWith_act, ha]
    exact ih i s (apply c i s)

def System.drift (S : System κ ι σ ε ρ η) : σ → List (Move ρ η ι) → σ
  | s, [] => s
  | s, .env e i :: ms => S.drift (S.apply (S.ambient e) i s) ms
  | s, _ :: ms => S.drift s ms

/-- `R` relates the states that look alike, `F` those before and after a command. -/
def Local (apply : κ → ι → σ → σ) (R F : σ → σ → Prop) : Prog κ ι σ ε α → Prop
  | .ret _ => True
  | .raise _ => True
  | .act c n => (∀ i s s', R s s' → R (apply c i s) (apply c i s') ∧ n i s = n i s') ∧ (∀ i s, F s (apply c i s)) ∧
      ∀ i s, Local apply R F (n i s)

namespace Local
variable {apply : κ → ι → σ → σ} {R F : σ → σ → Prop}
variable {p : Prog κ ι σ ε α}

theorem bind {f : α → Prog κ ι σ ε γ} (hp : Local apply R F p) (hf : ∀ a, Local apply R F (f a)) :
    Local apply R F (p.bind f) := by
  induction p with
  | ret a => exact hf a
  | raise e => trivial
  | act c n ih =>
    refine ⟨fun i s s' hs => ⟨(hp.1 i s s' hs).1, ?_⟩, hp.2.1, fun i s => ih i s (hp.2.2 i s)⟩
    dsimp only
    rw [(hp.1 i s s' hs).2]

theorem void (hp : Local apply R F p) : Local apply R F p.void := hp.bind fun _ => trivial

/-- From states that look alike the program does the same, and the states after it look alike. -/
theorem runOn (hp : Local apply R F p) {s s' : σ} (hs : R s s') (i : ι) (is : List ι) :
    (p.runOn apply i is s).outcome = (p.runOn apply i is s').outcome ∧
      R (p.runOn apply i is s).state (p.runOn apply i is s').state := by
  induction p generalizing s s' is with
  | ret a => exact ⟨rfl, hs⟩
  | raise e => exact ⟨rfl, hs⟩
  | act c n ih =>
    obtain ⟨hn, hsa⟩ := hp.1 (is.headD i) s s' hs
    have hr := ih (is.headD i) s (hp.2.2 _ s) hn is.tail
    rw [Prog.runOn, Prog.runOn, ← hsa]
    exact hr

theorem embed {apply' : κ' → ι → σ → σ} {f : κ → κ'} (ha : ∀ c, apply' (f c) = apply c)
    (hp : Local apply R F p) : Local apply' R F (p.embed f) := by
  induction p with
  | ret a => trivial
  | raise e => trivial
  | act c n ih =>
    refine ⟨fun i s s' hs => ⟨?_, ?_⟩, fun i s => ?_, fun i s => ih i s (hp.2.2 i s)⟩
    · rw [ha]
      exact (hp.1 i s s' hs).1
    · dsimp only
      rw [(hp.1 i s s' hs).2]
    · rw [ha]
      exact hp.2.1 i s

/-- However local programs are interleaved, the run differs within `F` from one in which only the
environment moves. -/
theorem frame_run {S : System κ ι σ ε ρ η} (ht : ∀ s s' s'', F s s' → F s' s'' → F s s'')
    (hpr : ∀ r, Local S.apply R F (S.program r))
    (he : ∀ e i s s', F s s' → F (S.apply (S.ambient e) i s) (S.apply (S.ambient e) i s'))
    (ms : List (Move ρ η ι)) (s : σ) (z : Sys κ ι σ ε) (hs : F s z.world) (hz : ∀ p ∈ z.procs, Local S.apply R F p) :
    F (S.drift s ms) (S.run z ms).world := by
  induction ms generalizing s z with
  | nil => exact hs
  | cons m ms ih =>
    cases m with
    | start r =>
      refine ih s (S.move z (.start r)) hs fun p hp => ?_
      rcases List.mem_append.mp hp with hp | hp
      · exact hz p hp
      · rw [List.mem_singleton.mp hp]
        exact hpr r
    | env e i => exact ih _ (S.move z (.env e i)) (he e i s z.world hs) hz
    | step j i =>
      rcases System.move_step_cases (S := S) z j i with hsa | ⟨c, n, hj, hm⟩
      · change F (S.drift s ms) (S.run (S.move z (.step j i)) ms).world
        rw [hsa]
        exact ih s z hs hz
      · have hl := hz _ hj
        have hst : F s (S.move z (.step j i)).world := by
          rw [hm]
          exact ht _ _ _ hs (hl.2.1 i z.world)
        refine ih s (S.move z (.step j i)) hst fun p hp => ?_
        rw [hm] at hp
        rcases List.mem_or_eq_of_mem_set hp with hp | rfl
        · exact hz p hp
        · exact hl.2.2 i z.world

end Local

end

end AsyncScheduler
