import AsyncScheduler.Platform.StoreEffects

/-!
# The breaker of a capability and its history

The scripts of the breaker keep two expiring keys.
-/

namespace AsyncScheduler
open List Redis

inductive BreakerCall where
  | recordFailure | recordSuccess | getState
  deriving DecidableEq, Repr

structure TimedCall where
  time : ℚ
  call : BreakerCall
  deriving DecidableEq, Repr

/-- The calls of a history stand in the order of their times, none before `t`. -/
def Timed (t : ℚ) (h : List TimedCall) : Prop :=
  h.Pairwise (fun later earlier => earlier.time ≤ later.time) ∧ ∀ e ∈ h, t ≤ e.time

theorem Timed.suffix {t : ℚ} {h₁ h₂ : List TimedCall} (h : Timed t (h₁ ++ h₂)) : Timed t h₂ :=
  ⟨(pairwise_append.mp h.1).2.1, fun e he => h.2 e (mem_append_right _ he)⟩

theorem Timed.split {t : ℚ} {h₁ h₂ : List TimedCall} {e : TimedCall} (h : Timed t (h₁ ++ e :: h₂)) :
    Timed t h₂ ∧ t ≤ e.time ∧ (∀ e' ∈ h₂, e'.time ≤ e.time) ∧ ∀ e' ∈ h₁, e.time ≤ e'.time := by
  have hr : Timed t ([e] ++ h₂) := h.suffix
  obtain ⟨_, _, ha⟩ := pairwise_append.mp h.1
  refine ⟨hr.suffix, hr.2 e mem_cons_self, (pairwise_cons.mp hr.1).1, fun e' he' => ?_⟩
  exact ha e' he' e mem_cons_self

namespace BreakerHistory

section Spec
variable (n : Int) (d : ℚ)

mutual

/-- A failure of the history tripped the breaker less than `d` ago. -/
def openAt : List TimedCall → ℚ → Bool
  | [], _ => false
  | e :: h, t =>
    openAt h t ||
      (e.call = .recordFailure ∧ openAt h e.time = false ∧ n ≤ inARow h e.time + 1 ∧ e.time ≤ t ∧ t < e.time + d)

/-- The failures recorded while not open since the last success, the last trip or the last
time span of `4 * d` without one, as they stand at an instant. -/
def inARow : List TimedCall → ℚ → Nat
  | [], _ => 0
  | e :: h, t =>
    match e.call with
    | .recordSuccess => 0
    | .getState => inARow h t
    | .recordFailure =>
      if openAt h e.time then inARow h t
      else if n ≤ inARow h e.time + 1 then 0
      else if 4 * d ≤ t - e.time then 0
      else inARow h e.time + 1

end

def Trips (e : TimedCall) (h : List TimedCall) : Prop :=
  e.call = .recordFailure ∧ openAt n d h e.time = false ∧ n ≤ inARow n d h e.time + 1

variable {n d} {e : TimedCall} {h : List TimedCall} {t : ℚ}

theorem openAt_cons_iff :
    openAt n d (e :: h) t = true ↔ openAt n d h t = true ∨ Trips n d e h ∧ e.time ≤ t ∧ t < e.time + d := by
  simp only [openAt, Trips, Bool.or_eq_true, decide_eq_true_eq, and_assoc]

theorem openAt_iff : openAt n d h t = true ↔
      ∃ h₁ e h₂, h = h₁ ++ e :: h₂ ∧ Trips n d e h₂ ∧ e.time ≤ t ∧ t < e.time + d := by
  induction h with
  | nil => simp [openAt]
  | cons e h ih =>
    rw [openAt_cons_iff, ih]
    constructor
    · rintro (⟨h₁, e', h₂, rfl, ht⟩ | ht)
      · exact ⟨e :: h₁, e', h₂, rfl, ht⟩
      · exact ⟨[], e, h, rfl, ht⟩
    · rintro ⟨h₁, e', h₂, heq, ht⟩
      cases h₁ with
      | nil =>
        obtain ⟨rfl, rfl⟩ := List.cons.inj heq
        exact .inr ht
      | cons e₁ h₁ =>
        obtain ⟨rfl, rfl⟩ := List.cons.inj heq
        exact .inl ⟨h₁, e', h₂, rfl, ht⟩

theorem not_trips_of_call (hc : e.call ≠ .recordFailure) : ¬ Trips n d e h := fun ht => hc ht.1

theorem not_trips_of_open (ho : openAt n d h e.time = true) : ¬ Trips n d e h := fun ht =>
  Bool.false_ne_true (ht.2.1.symm.trans ho)

theorem openAt_cons_of_not_trips (ht : ¬ Trips n d e h) : openAt n d (e :: h) t = openAt n d h t := by
  rw [Bool.eq_iff_iff, openAt_cons_iff]
  exact ⟨fun ho => ho.resolve_right fun hn => ht hn.1, .inl⟩

theorem openAt_of_le {u : ℚ} (hp : ∀ e ∈ h, e.time ≤ u) (hle : u ≤ t) (ho : openAt n d h t = true) :
    openAt n d h u = true := by
  obtain ⟨h₁, e, h₂, rfl, ht, _, hun⟩ := openAt_iff.mp ho
  have hu : e.time ≤ u := hp e (mem_append_right _ mem_cons_self)
  exact openAt_iff.mpr ⟨h₁, e, h₂, rfl, ht, hu, lt_of_le_of_lt hle hun⟩

theorem inARow_lt (hn : 1 ≤ n) (h : List TimedCall) (t : ℚ) : (inARow n d h t : Int) < n := by
  induction h generalizing t with
  | nil =>
    simp only [inARow]
    omega
  | cons e h ih =>
    simp only [inARow]
    cases e.call with
    | recordSuccess => simpa using by omega
    | getState => exact ih t
    | recordFailure =>
      dsimp only
      split
      · exact ih t
      · split
        · simpa using by omega
        · split
          · simpa using by omega
          · push_cast
            omega

theorem getState_append {reads : List TimedCall} (hr : ∀ e ∈ reads, e.call = .getState) :
    openAt n d (reads ++ h) t = openAt n d h t ∧ inARow n d (reads ++ h) t = inARow n d h t := by
  induction reads with
  | nil => exact ⟨rfl, rfl⟩
  | cons e reads ih =>
    obtain ⟨hc, hre⟩ := forall_mem_cons.mp hr
    obtain ⟨ho, hro⟩ := ih hre
    constructor
    · rw [cons_append, openAt_cons_of_not_trips (not_trips_of_call (by simp [hc])), ho]
    · simp only [cons_append, inARow, hc, hro]

theorem replicate_failure {k : Nat} (hk : k = 0 ∨ (k : Int) < n) (hd : 0 < d) (t : ℚ) :
    openAt n d (List.replicate k ⟨t, .recordFailure⟩) t = false ∧
      inARow n d (List.replicate k ⟨t, .recordFailure⟩) t = k := by
  induction k with
  | zero => exact ⟨rfl, rfl⟩
  | succ k ih =>
    have hlt : ((k + 1 : Nat) : Int) < n := hk.resolve_left (Nat.succ_ne_zero k)
    push_cast at hlt
    obtain ⟨hc, hr⟩ := ih (.inr (by omega))
    have hm : ¬ n ≤ k + 1 := by omega
    have hg : ¬ 4 * d ≤ t - t := by linarith
    constructor
    · rw [replicate_succ, openAt_cons_of_not_trips fun ht => hm (hr ▸ ht.2.2), hc]
    · simp only [replicate_succ, inARow, hc, hr, if_neg hm, if_neg hg, Bool.false_eq_true, if_false]

/-- After a trip nothing recorded in its period has an effect: the period ends when it
would have ended, and no failure stands in a row. -/
theorem after_trip (htr : Trips n d e h) {mid : List TimedCall}
    (hm : ∀ e' ∈ mid, e.time ≤ e'.time ∧ e'.time < e.time + d)
    (hb : ∀ t, e.time ≤ t → openAt n d h t = false) (ht : e.time ≤ t) :
    openAt n d (mid ++ e :: h) t = decide (t < e.time + d) ∧ inARow n d (mid ++ e :: h) t = 0 := by
  induction mid generalizing t with
  | nil =>
    constructor
    · rw [nil_append, Bool.eq_iff_iff, openAt_cons_iff, hb t ht]
      simp [htr, ht]
    · simp only [nil_append, inARow, htr.1, htr.2.1, htr.2.2, Bool.false_eq_true, if_true, if_false]
  | cons e' mid ih =>
    have hr := fun e'' he'' => hm e'' (mem_cons_of_mem _ he'')
    obtain ⟨hf, hu⟩ := hm e' mem_cons_self
    have ho : openAt n d (mid ++ e :: h) e'.time = true := by
      rw [(ih hr hf).1]
      exact decide_eq_true hu
    rw [cons_append, openAt_cons_of_not_trips (not_trips_of_open ho)]
    refine ⟨(ih hr ht).1, ?_⟩
    simp only [inARow, ho, if_true]
    cases e'.call with
    | recordSuccess => rfl
    | getState | recordFailure => exact (ih hr ht).2

end Spec
end BreakerHistory

open BreakerHistory

namespace CircuitBreaker

def invoke (cb : CircuitBreaker) (capability : String) : BreakerCall → Py BreakerState
  | .recordFailure => cb.recordFailure capability
  | .recordSuccess => cb.recordSuccess capability
  | .getState => cb.getState capability

def op (cb : CircuitBreaker) (capability : String) : BreakerCall → BreakerOp
  | .recordFailure => .recordFailure capability cb.failureThreshold cb.openDurationSeconds
  | .recordSuccess => .recordSuccess capability
  | .getState => .checkState capability cb.halfOpenMax

theorem runWith_invoke (cb : CircuitBreaker) (capability : String) (b : BreakerCall) (w : World) :
    ((cb.invoke capability b).runWith Command.apply .ok w).2 = w.onRedis (cb.op capability b).exec := by
  cases b with
  | recordFailure => rw [invoke, recordFailure, runWith_await, World.exec, op]
  | recordSuccess => rw [invoke, recordSuccess, runWith_await, World.exec, op]
  | getState => rw [invoke, getState, runWith_await, World.exec, op]

def after (cb : CircuitBreaker) (capability : String) (w : World) : List TimedCall → World
  | [] => w
  | e :: h =>
    ((cb.invoke capability e.call).runWith Command.apply .ok
      ((cb.after capability w h).onRedis (·.advance e.time))).2

/-- What `get_state` answers at an instant after a history. -/
def answerAt (cb : CircuitBreaker) (capability : String) (w : World) (h : List TimedCall) (t : ℚ) :
    Except PyErr BreakerState :=
  ((cb.getState capability).runWith Command.apply .ok
    ((cb.after capability w h).onRedis (·.advance t))).1

end CircuitBreaker

def Unrecorded (capability : String) (w : World) : Prop :=
  w.redis.strings (breakerStateKey capability) = none ∧ w.redis.strings (breakerCountKey capability) = none

/-- At every instant from now on the keys read as the history has it. -/
structure Shows (n : Int) (d : ℚ) (capability : String) (h : List TimedCall) (r : Store) : Prop where
  state : ∀ t, r.clock ≤ t → (r.advance t).get (breakerStateKey capability) =
    if openAt n d h t then some (.text "open") else none
  count : ∀ t, r.clock ≤ t → (r.advance t).get (breakerCountKey capability) =
    if inARow n d h t = 0 then none else some (.num (inARow n d h t))

theorem live_some {t x : ℚ} : Redis.live t (some x) = decide (t < x) := rfl

section Simulation
variable {n d : Int} {c : String} {h : List TimedCall} {r : Store} {e : TimedCall}

theorem Shows.advance (hs : Shows n d c h r) {t : ℚ} (ht : r.clock ≤ t) : Shows n d c h (r.advance t) where
  state t' ht' := by
    have hle : t ≤ t' := ht'
    rw [get_advance_advance _ _ hle]
    exact hs.state t' (ht.trans hle)
  count t' ht' := by
    have hle : t ≤ t' := ht'
    rw [get_advance_advance _ _ hle]
    exact hs.count t' (ht.trans hle)

theorem exists_incr {key : String} {k : Nat} (hc : r.get key = if k = 0 then none else some (.num k)) :
    ∃ r₁ : Store, incr r key = some ((k : Int) + 1, r₁) ∧ r₁.clock = r.clock ∧
      ∃ dl, r₁.strings key = some (.num (k + 1), dl) := by
  rw [Redis.get] at hc
  unfold incr
  by_cases hk : k = 0
  · rw [if_pos hk, Option.map_eq_none_iff] at hc
    subst hk
    rw [hc]
    exact ⟨r.set key (.num 1) none, rfl, rfl, none, by simp [strings_set]⟩
  · rw [if_neg hk, Option.map_eq_some_iff] at hc
    obtain ⟨⟨v, dl⟩, he, rfl⟩ := hc
    rw [he]
    exact ⟨_, rfl, rfl, dl, by simp⟩

theorem luaRecordFailure_closed {k : Nat} (hd : 1 ≤ d) (hs : r.strings (breakerStateKey c) = none)
    (hco : r.get (breakerCountKey c) = if k = 0 then none else some (.num k)) :
    (luaRecordFailure c n d r).1 = .ok (if n ≤ k + 1 then .open else .closed) ∧
      (luaRecordFailure c n d r).2.clock = r.clock ∧
      (luaRecordFailure c n d r).2.strings (breakerStateKey c) =
        (if n ≤ k + 1 then some (.text "open", some (r.clock + d)) else none) ∧
      (luaRecordFailure c n d r).2.strings (breakerCountKey c) =
        if n ≤ k + 1 then none else some (.num (k + 1), some (r.clock + d * 4)) := by
  have hcl : breakerState c r = .closed := by simp [breakerState, Redis.get, hs]
  have hne := breakerCountKey_ne_breakerStateKey c
  have hpos : (0 : ℚ) < d := by exact_mod_cast hd
  obtain ⟨r₁, hi, hc, dl, hcou⟩ := exists_incr hco
  have hk : r₁.expire (breakerCountKey c) (d * 4) = r₁.set (breakerCountKey c) (.num (k + 1)) (some (d * 4)) :=
    expire_of_some _ _ hcou (by linarith)
  simp only [luaRecordFailure, hcl, hi, hk, reduceCtorEq, if_false, or_false]
  by_cases hn : n ≤ k + 1
  · have ho (r₂ : Store) : (r₂.set (breakerStateKey c) (.text "open") none).expire (breakerStateKey c) d =
        (r₂.set (breakerStateKey c) (.text "open") none).set (breakerStateKey c) (.text "open") (some (d : ℚ)) :=
      expire_of_some _ _ (by rw [strings_set, if_pos rfl]) hpos
    simp only [if_pos hn, ho]
    refine ⟨trivial, hc, ?_, ?_⟩
    · rw [strings_del_of_ne _ _ _ hne.symm, strings_set, if_pos rfl]
      simp [Redis.set, hc]
    · rw [strings_del, if_pos rfl]
  · simp only [if_neg hn]
    refine ⟨trivial, hc, ?_, ?_⟩
    · rw [strings_set_of_ne _ _ _ _ _ hne.symm, strings_incr_of_ne hi hne.symm, hs]
    · rw [strings_set, if_pos rfl, hc]
      rfl

theorem Shows.openAt_eq_false (hs : Shows n d c h r) {t u : ℚ} (ht : r.clock ≤ t) (hle : t ≤ u)
    (hc : openAt n d h t = false) : openAt n d h u = false := by
  have hn := hs.state t ht
  have hl := hs.state u (ht.trans hle)
  rw [hc, if_neg Bool.false_ne_true] at hn
  rw [← get_advance_advance _ _ hle, Redis.get, strings_advance, Option.map_eq_none_iff.mp hn] at hl
  cases ho : openAt n d h u with
  | false => rfl
  | true =>
    rw [ho] at hl
    cases hl

theorem Shows.failure_closed (hd : 1 ≤ d) (hs : Shows n d c h r) (ht : r.clock ≤ e.time)
    (hca : e.call = .recordFailure) (hclo : openAt n d h e.time = false) :
    Shows n d c (e :: h) (luaRecordFailure c n d (r.advance e.time)).2 := by
  have hn : (r.advance e.time).strings (breakerStateKey c) = none := by
    have hr := hs.state e.time ht
    rw [hclo, if_neg Bool.false_ne_true] at hr
    exact Option.map_eq_none_iff.mp hr
  obtain ⟨_, hcl, hst, hc⟩ := luaRecordFailure_closed hd hn (hs.count e.time ht)
  have hno : (r.advance e.time).clock = e.time := rfl
  rw [hno] at hcl hst hc
  have hb (u : ℚ) (hu : e.time ≤ u) : openAt n d h u = false := hs.openAt_eq_false ht hu hclo
  by_cases htr : n ≤ inARow n d h e.time + 1
  · -- It trips: the state key lives for the open period and the count is gone.
    have hm : ∀ e' ∈ ([] : List TimedCall), e.time ≤ e'.time ∧ e'.time < e.time + d :=
      fun _ he' => absurd he' not_mem_nil
    have ha (u : ℚ) (hu : e.time ≤ u) := after_trip ⟨hca, hclo, htr⟩ hm hb hu
    rw [if_pos htr] at hst hc
    constructor
    · intro t ht'
      rw [hcl] at ht'
      rw [Redis.get, strings_advance, hst, Option.filter_some, live_some]
      have := (ha t ht').1
      rw [nil_append] at this
      rw [this]
      by_cases hl : t < e.time + d <;> simp [hl]
    · intro t ht'
      rw [hcl] at ht'
      rw [Redis.get, strings_advance, hc]
      have := (ha t ht').2
      rw [nil_append] at this
      rw [this]
      rfl
  · have hi : ¬ Trips n d e h := fun htri => htr htri.2.2
    rw [if_neg htr] at hst hc
    constructor
    · intro t ht'
      rw [hcl] at ht'
      rw [Redis.get, strings_advance, hst, openAt_cons_of_not_trips hi, hb t ht']
      rfl
    · intro t ht'
      rw [Redis.get, strings_advance, hc, Option.filter_some, live_some]
      have hro : inARow n d (e :: h) t = if 4 * (d : ℚ) ≤ t - e.time then 0 else inARow n d h e.time + 1 := by
        simp only [inARow, hca, hclo, if_neg htr, Bool.false_eq_true, if_false]
      rw [hro]
      by_cases hg : 4 * (d : ℚ) ≤ t - e.time
      · have hl : ¬ t < e.time + d * 4 := by linarith
        simp [hg, hl]
      · have hl : t < e.time + d * 4 := by linarith
        simp [hg, hl]

theorem breakerState_of_shows (hs : Shows n d c h r) {t : ℚ} (ht : r.clock ≤ t) :
    breakerState c (r.advance t) = if openAt n d h t then .open else .closed := by
  rw [breakerState, hs.state t ht]
  cases openAt n d h t <;> rfl

theorem Shows.cons_of_not_trips (hs : Shows n d c h r) {r' : Store} (hc : r'.clock = r.clock)
    (htr : ¬ Trips n d e h) (hst : r'.strings (breakerStateKey c) = r.strings (breakerStateKey c))
    (hco : ∀ t, r.clock ≤ t → (r'.advance t).get (breakerCountKey c) =
      if inARow n d (e :: h) t = 0 then none else some (.num (inARow n d (e :: h) t))) :
    Shows n d c (e :: h) r' where
  state t ht := by
    rw [hc] at ht
    rw [openAt_cons_of_not_trips htr, ← hs.state t ht, Redis.get, Redis.get, strings_advance,
      strings_advance, hst]
  count t ht := hco t (hc ▸ ht)

/-- Every call of the breaker keeps its keys in step with the history. -/
theorem Shows.call (cb : CircuitBreaker) (hd : 1 ≤ cb.openDurationSeconds)
    (hs : Shows cb.failureThreshold cb.openDurationSeconds c h r) (ht : r.clock ≤ e.time) :
    Shows cb.failureThreshold cb.openDurationSeconds c (e :: h) ((cb.op c e.call).exec (r.advance e.time)) := by
  have hn := hs.advance ht
  have hb := breakerState_of_shows hs ht
  cases hc : e.call with
  | getState =>
    have hsa : (cb.op c .getState).exec (r.advance e.time) = r.advance e.time := by
      simp only [CircuitBreaker.op, BreakerOp.exec, luaCheckState, hb]
      cases openAt cb.failureThreshold cb.openDurationSeconds h e.time <;> rfl
    rw [hsa]
    refine hn.cons_of_not_trips rfl (not_trips_of_call (by simp [hc])) rfl fun t ht' => ?_
    simp only [inARow, hc]
    exact hn.count t ht'
  | recordSuccess =>
    have hr : (cb.op c .recordSuccess).exec (r.advance e.time) = (r.advance e.time).del (breakerCountKey c) := by
      simp only [CircuitBreaker.op, BreakerOp.exec, luaRecordSuccess, hb]
      cases openAt cb.failureThreshold cb.openDurationSeconds h e.time <;> rfl
    rw [hr]
    refine hn.cons_of_not_trips rfl (not_trips_of_call (by simp [hc]))
      (strings_del_of_ne _ _ _ (breakerCountKey_ne_breakerStateKey c).symm) fun t _ => ?_
    rw [Redis.get, strings_advance, strings_del, if_pos rfl]
    simp [inARow, hc]
  | recordFailure =>
    cases ho : openAt cb.failureThreshold cb.openDurationSeconds h e.time with
    | false => exact hs.failure_closed hd ht hc ho
    | true =>
      have hsa : (cb.op c .recordFailure).exec (r.advance e.time) = r.advance e.time := by
        simp only [CircuitBreaker.op, BreakerOp.exec, luaRecordFailure, hb, ho, if_true]
      rw [hsa]
      refine hn.cons_of_not_trips rfl (not_trips_of_open ho) rfl fun t ht' => ?_
      simp only [inARow, hc, ho, if_true]
      exact hn.count t ht'

variable (cb : CircuitBreaker) {w : World}

theorem CircuitBreaker.redis_after_cons (w : World) :
    (cb.after c w (e :: h)).redis = (cb.op c e.call).exec ((cb.after c w h).redis.advance e.time) := by
  rw [CircuitBreaker.after, CircuitBreaker.runWith_invoke]
  rfl

section
variable (hd : 1 ≤ cb.openDurationSeconds) (hf : Unrecorded c w) (hti : Timed w.redis.clock h)
include hd hf hti

theorem shows_after :
    Shows cb.failureThreshold cb.openDurationSeconds c h (cb.after c w h).redis ∧
      ∀ t, w.redis.clock ≤ t → (∀ e ∈ h, e.time ≤ t) → (cb.after c w h).redis.clock ≤ t := by
  induction h with
  | nil =>
    refine ⟨⟨fun t _ => ?_, fun t _ => ?_⟩, fun t ht _ => ht⟩
    · rw [Redis.get, strings_advance, CircuitBreaker.after, hf.1]
      rfl
    · rw [Redis.get, strings_advance, CircuitBreaker.after, hf.2]
      rfl
  | cons e h ih =>
    obtain ⟨ho, hfr⟩ := hti
    obtain ⟨hn, hr⟩ := pairwise_cons.mp ho
    obtain ⟨hs, hc⟩ := ih ⟨hr, fun e' he' => hfr e' (mem_cons_of_mem _ he')⟩
    have hno := hc e.time (hfr e mem_cons_self) hn
    rw [CircuitBreaker.redis_after_cons]
    refine ⟨hs.call cb hd hno, fun t _ hl => ?_⟩
    rw [clock_of_sorted (Edits.breakerOp _ _).sorted]
    exact hl e mem_cons_self

theorem answerAt_eq {t : ℚ} (ht : w.redis.clock ≤ t) (hl : ∀ e ∈ h, e.time ≤ t) :
    cb.answerAt c w h t =
      .ok (if openAt cb.failureThreshold cb.openDurationSeconds h t then .open else .closed) := by
  obtain ⟨hs, hc⟩ := shows_after cb hd hf hti
  have hst := breakerState_of_shows hs (hc t ht hl)
  rw [CircuitBreaker.answerAt, CircuitBreaker.getState, runWith_await]
  change (luaCheckState c cb.halfOpenMax ((cb.after c w h).redis.advance t)).1 = _
  rw [luaCheckState, hst]
  cases openAt cb.failureThreshold cb.openDurationSeconds h t <;> rfl

theorem answers_open {t : ℚ} (ht : w.redis.clock ≤ t) (hl : ∀ e ∈ h, e.time ≤ t) :
    cb.answerAt c w h t = .ok .open ↔ openAt cb.failureThreshold cb.openDurationSeconds h t = true := by
  rw [answerAt_eq cb hd hf hti ht hl]
  cases openAt cb.failureThreshold cb.openDurationSeconds h t <;> simp

end

/-- From a failure that opens the breaker on, as long as only calls within the open period
follow. -/
theorem opened_spec {h₁ : List TimedCall} (hd : 1 ≤ cb.openDurationSeconds) (hf : Unrecorded c w)
    (hti : Timed w.redis.clock (h₁ ++ e :: h)) (hc : cb.answerAt c w h e.time ≠ .ok .open)
    (ho : cb.answerAt c w (e :: h) e.time = .ok .open)
    (hin : ∀ e' ∈ h₁, e'.time < e.time + cb.openDurationSeconds) {t : ℚ} (ht : e.time ≤ t) :
    openAt cb.failureThreshold cb.openDurationSeconds (h₁ ++ e :: h) t =
        decide (t < e.time + cb.openDurationSeconds) ∧
      inARow cb.failureThreshold cb.openDurationSeconds (h₁ ++ e :: h) t = 0 := by
  obtain ⟨he, hfr, hp, hl⟩ := hti.split
  have ha : ∀ e' ∈ e :: h, e'.time ≤ e.time := by simpa using hp
  rw [Ne, answers_open cb hd hf he hfr hp] at hc
  rw [answers_open cb hd hf hti.suffix hfr ha, openAt_cons_iff] at ho
  have htr := (ho.resolve_left hc).1
  refine after_trip htr (fun e' he' => ⟨hl e' he', hin e' he'⟩) (fun u hu => ?_) ht
  by_contra hop
  exact hc (openAt_of_le hp hu (by simpa using hop))

theorem state_absent (hd : cb.openDurationSeconds ≤ 0) (hn : r.strings (breakerStateKey c) = none)
    (b : BreakerCall) : ((cb.op c b).exec r).strings (breakerStateKey c) = none := by
  have hne := (breakerCountKey_ne_breakerStateKey c).symm
  have hc : breakerState c r = .closed := by simp [breakerState, Redis.get, hn]
  cases b with
  | getState => simp only [CircuitBreaker.op, BreakerOp.exec, luaCheckState, hc, hn]
  | recordSuccess =>
    simp only [CircuitBreaker.op, BreakerOp.exec, luaRecordSuccess, hc, reduceCtorEq, if_false]
    rw [strings_del_of_ne _ _ _ hne, hn]
  | recordFailure =>
    simp only [CircuitBreaker.op, BreakerOp.exec, luaRecordFailure, hc, reduceCtorEq, if_false, or_false]
    split
    · exact hn
    · rename_i count r₁ hi
      split
      · have ho : (cb.openDurationSeconds : ℚ) ≤ 0 := by exact_mod_cast hd
        rw [strings_del_of_ne _ _ _ hne, Redis.expire, strings_set, if_pos rfl]
        exact (congrArg (fun r : Store => r.strings (breakerStateKey c)) (if_pos ho)).trans
          ((strings_del _ _ _).trans (if_pos rfl))
      · rw [strings_expire_of_ne _ _ _ _ hne, strings_incr_of_ne hi hne, hn]

end Simulation

end AsyncScheduler
