import AsyncScheduler.Platform.BreakerHistory

/-!
# Tripping and recovery of the capability breaker

The breaker trips as its history says.
-/

namespace AsyncScheduler
open List

open BreakerHistory

section Tripping
variable (cb : CircuitBreaker) (c : String) (w : World) (h : List TimedCall) (t : ℚ)

/-- The breaker is open exactly from a failure that is the `n`-th in a row, for the open
duration; otherwise it is closed. Calls in that period move neither end of it. -/
theorem answers_open_iff (hn : 1 ≤ cb.failureThreshold) (hd : 1 ≤ cb.openDurationSeconds) (hfresh : Unrecorded c w)
    (htimed : Timed w.redis.clock h) (ht : w.redis.clock ≤ t) (hlast : ∀ e ∈ h, e.time ≤ t) :
    (cb.answerAt c w h t = .ok .open ↔
      ∃ h₁ e h₂, h = h₁ ++ e :: h₂ ∧ e.call = .recordFailure ∧ cb.answerAt c w h₂ e.time ≠ .ok .open ∧
        inARow cb.failureThreshold cb.openDurationSeconds h₂ e.time + 1 = cb.failureThreshold ∧
        e.time ≤ t ∧ t < e.time + cb.openDurationSeconds) ∧
    (cb.answerAt c w h t ≠ .ok .open → cb.answerAt c w h t = .ok .closed) ∧
    ∀ h₁ e h₂, h = h₁ ++ e :: h₂ → cb.answerAt c w h₂ e.time ≠ .ok .open →
      cb.answerAt c w (e :: h₂) e.time = .ok .open →
      (∀ e' ∈ h₁, e'.time < e.time + cb.openDurationSeconds) →
      cb.answerAt c w h t = .ok (if t < e.time + cb.openDurationSeconds then .open else .closed) := by
  refine ⟨?_, fun hc => ?_, fun h₁ e h₂ heq hc hop hin => ?_⟩
  · rw [answers_open cb hd hfresh htimed ht hlast, openAt_iff]
    refine exists_congr fun h₁ => exists_congr fun e => exists_congr fun h₂ => and_congr_right fun heq => ?_
    obtain ⟨he, hf, hp, _⟩ := Timed.split (heq ▸ htimed)
    rw [Ne, answers_open cb hd hfresh he hf hp, Bool.not_eq_true, Trips, and_assoc, and_assoc]
    have hex : cb.failureThreshold ≤ inARow cb.failureThreshold cb.openDurationSeconds h₂ e.time + 1 ↔
        inARow cb.failureThreshold cb.openDurationSeconds h₂ e.time + 1 = cb.failureThreshold := by
      have hlt := inARow_lt hn h₂ e.time (d := cb.openDurationSeconds)
      omega
    rw [hex]
  · rw [answerAt_eq cb hd hfresh htimed ht hlast] at hc ⊢
    cases ho : openAt cb.failureThreshold cb.openDurationSeconds h t with
    | false => rfl
    | true => exact absurd (by rw [ho, if_pos rfl]) hc
  · subst heq
    have hf : e.time ≤ t := hlast e (List.mem_append_right _ List.mem_cons_self)
    rw [answerAt_eq cb hd hfresh htimed ht hlast, (opened_spec cb hd hfresh htimed hc hop hin hf).1]
    by_cases hen : t < e.time + cb.openDurationSeconds <;> simp [hen]

end Tripping

theorem answers_open_iff_twice :
    let cb : CircuitBreaker := { failureThreshold := 2 }
    let h : List TimedCall := [⟨5, .recordFailure⟩, ⟨0, .recordFailure⟩]
    cb.answerAt "gpu" World.empty h 64 = .ok .open ∧ cb.answerAt "gpu" World.empty h 65 = .ok .closed := by
  intro cb h
  have hti : Timed World.empty.redis.clock h := ⟨by decide +kernel, by decide +kernel⟩
  have hs (t : ℚ) (ht : World.empty.redis.clock ≤ t) (hl : ∀ e ∈ h, e.time ≤ t) :=
    (answers_open_iff cb "gpu" World.empty h t (by decide) (by decide) ⟨rfl, rfl⟩ hti ht hl).2.2
      [] ⟨5, .recordFailure⟩ [⟨0, .recordFailure⟩] rfl (by decide +kernel) (by decide +kernel) (by simp)
  exact ⟨(hs 64 (by decide +kernel) (by decide +kernel)).trans (by decide +kernel),
    (hs 65 (by decide +kernel) (by decide +kernel)).trans (by decide +kernel)⟩

namespace CircuitBreaker

/-- One `allow_request` at each of the times, how many returned `True`, and the world they leave. -/
def probe (cb : CircuitBreaker) (capability : String) : World → List ℚ → Nat × World
  | w, [] => (0, w)
  | w, t :: ts =>
    let (allowed, w') := (cb.allowRequest capability).runWith Command.apply .ok (w.onRedis (·.advance t))
    let (n, w'') := cb.probe capability w' ts
    ((if allowed = .ok true then n + 1 else n), w'')

end CircuitBreaker

/-- A history in which a failure at `t₀` opened the breaker and all later calls fell in the open
period. -/
structure Opened (cb : CircuitBreaker) (c : String) (w : World) (h : List TimedCall) (t₀ : ℚ) : Prop where
  fresh : Unrecorded c w
  timed : Timed w.redis.clock h
  opened : ∃ h₁ h₂, h = h₁ ++ ⟨t₀, .recordFailure⟩ :: h₂ ∧ cb.answerAt c w h₂ t₀ ≠ .ok .open ∧
    cb.answerAt c w (⟨t₀, .recordFailure⟩ :: h₂) t₀ = .ok .open ∧
    ∀ e ∈ h₁, e.time < t₀ + cb.openDurationSeconds

/-- After the open duration, `allow_request` returns `True` at most `half_open_max` times before
the next failure or success is recorded. -/
def ProbesBounded (cb : CircuitBreaker) (c : String) : Prop :=
  ∀ w h t₀, Opened cb c w h t₀ → ∀ ts : List ℚ, ts.Pairwise (· ≤ ·) →
    (∀ t ∈ ts, t₀ + cb.openDurationSeconds ≤ t) → ((cb.probe c (cb.after c w h) ts).1 : Int) ≤ cb.halfOpenMax

def ReopensAtOnce (cb : CircuitBreaker) (c : String) : Prop :=
  ∀ w h t₀, Opened cb c w h t₀ → ∀ ts : List ℚ, ts.Pairwise (· ≤ ·) →
    (∀ t ∈ ts, t₀ + cb.openDurationSeconds ≤ t) → ∀ t, t₀ + cb.openDurationSeconds ≤ t → (∀ u ∈ ts, u ≤ t) →
    cb.answerAt c (cb.probe c (cb.after c w h) ts).2 [⟨t, .recordFailure⟩] t = .ok .open

section Probing
variable {cb : CircuitBreaker} {c : String} {w : World} {h : List TimedCall} {t₀ : ℚ}

theorem Timed.cons {e : TimedCall} {t : ℚ} (h' : Timed t h) (he : t ≤ e.time) (hl : ∀ e' ∈ h, e'.time ≤ e.time) :
    Timed t (e :: h) :=
  ⟨pairwise_cons.mpr ⟨hl, h'.1⟩, forall_mem_cons.mpr ⟨he, h'.2⟩⟩

theorem CircuitBreaker.runWith_allowRequest (w : World) : (cb.allowRequest c).runWith Command.apply .ok w =
      (((cb.getState c).runWith Command.apply .ok w).1.map fun s => decide (s = .closed ∨ s = .halfOpen),
        ((cb.getState c).runWith Command.apply .ok w).2) := by
  rw [CircuitBreaker.allowRequest, Prog.bind_eq, Prog.runWith_bind]
  obtain ⟨outcome, w'⟩ := (cb.getState c).runWith Command.apply .ok w
  cases outcome <;> rfl

section
variable (hd : 1 ≤ cb.openDurationSeconds)
include hd

theorem probe_eq (hfr : Unrecorded c w) (ht : Timed w.redis.clock h) {ts : List ℚ} (ho : ts.Pairwise (· ≤ ·))
    (hla : ∀ t ∈ ts, w.redis.clock ≤ t ∧ (∀ e ∈ h, e.time ≤ t) ∧
      openAt cb.failureThreshold cb.openDurationSeconds h t = false) :
    cb.probe c (cb.after c w h) ts =
      (ts.length, cb.after c w (ts.reverse.map (fun t => ⟨t, .getState⟩) ++ h)) ∧
    Timed w.redis.clock (ts.reverse.map (fun t => ⟨t, .getState⟩) ++ h) := by
  induction ts generalizing h with
  | nil => exact ⟨rfl, ht⟩
  | cons t ts ih =>
    obtain ⟨hn, hre⟩ := pairwise_cons.mp ho
    obtain ⟨hf, hl, hc⟩ := hla t mem_cons_self
    have ha := answerAt_eq cb hd hfr ht hf hl
    rw [hc, if_neg Bool.false_ne_true, CircuitBreaker.answerAt] at ha
    have hi : ¬ Trips cb.failureThreshold cb.openDurationSeconds ⟨t, .getState⟩ h :=
      not_trips_of_call (by simp)
    obtain ⟨hgo, hk⟩ := ih (h := ⟨t, .getState⟩ :: h) (ht.cons hf hl) hre fun t' ht' => by
      obtain ⟨hf', hl', hc'⟩ := hla t' (mem_cons_of_mem _ ht')
      refine ⟨hf', forall_mem_cons.mpr ⟨hn t' ht', hl'⟩, ?_⟩
      rw [openAt_cons_of_not_trips hi, hc']
    have hw : ((cb.getState c).runWith Command.apply .ok ((cb.after c w h).onRedis (·.advance t))).2 =
        cb.after c w (⟨t, .getState⟩ :: h) := rfl
    have hr : (t :: ts).reverse.map (fun t => (⟨t, .getState⟩ : TimedCall)) ++ h =
        ts.reverse.map (fun t => ⟨t, .getState⟩) ++ ⟨t, .getState⟩ :: h := by simp
    rw [hr]
    refine ⟨?_, hk⟩
    simp only [CircuitBreaker.probe, CircuitBreaker.runWith_allowRequest, ha, hw, hgo]
    simp [Except.map]

theorem Opened.elapsed (ho : Opened cb c w h t₀) {t : ℚ} (ht : t₀ + cb.openDurationSeconds ≤ t) :
    w.redis.clock ≤ t ∧ (∀ e ∈ h, e.time ≤ t) ∧
      openAt cb.failureThreshold cb.openDurationSeconds h t = false ∧
      inARow cb.failureThreshold cb.openDurationSeconds h t = 0 := by
  obtain ⟨h₁, h₂, rfl, hc, hope, hin⟩ := ho.opened
  have hpos : (1 : ℚ) ≤ cb.openDurationSeconds := by exact_mod_cast hd
  have hle : t₀ ≤ t := by linarith
  obtain ⟨_, hf, hp, _⟩ := ho.timed.split
  obtain ⟨hop, hr⟩ := opened_spec cb hd ho.fresh ho.timed hc hope hin hle
  refine ⟨hf.trans hle, fun e he => ?_, ?_, hr⟩
  · rcases mem_append.mp he with he | he
    · exact (hin e he).le.trans ht
    · rcases mem_cons.mp he with rfl | he
      · exact hle
      · exact (hp e he).trans hle
  · rw [hop]
    exact decide_eq_false (not_lt.mpr ht)

/-- After the open time every probe is admitted, and a failure opens only at a threshold of one. -/
theorem Opened.recovery (ho : Opened cb c w h t₀) {ts : List ℚ}
    (hor : ts.Pairwise (· ≤ ·)) (hla : ∀ t ∈ ts, t₀ + cb.openDurationSeconds ≤ t) :
    (cb.probe c (cb.after c w h) ts).1 = ts.length ∧
      ∀ t, t₀ + cb.openDurationSeconds ≤ t → (∀ u ∈ ts, u ≤ t) →
        cb.answerAt c (cb.probe c (cb.after c w h) ts).2 [⟨t, .recordFailure⟩] t =
          .ok (if cb.failureThreshold ≤ 1 then .open else .closed) := by
  obtain ⟨hpr, hre⟩ := probe_eq hd ho.fresh ho.timed hor fun t ht => by
    obtain ⟨hf, hl, hc, _⟩ := ho.elapsed hd (hla t ht)
    exact ⟨hf, hl, hc⟩
  refine ⟨congrArg Prod.fst hpr, fun t ht hpro => ?_⟩
  let reads : List TimedCall := ts.reverse.map fun t => ⟨t, .getState⟩
  have hr : ∀ e ∈ reads, e.call = .getState := by simp [reads]
  obtain ⟨hf, hl, hc, hro⟩ := ho.elapsed hd ht
  obtain ⟨ho', hr'⟩ := getState_append (n := cb.failureThreshold) (d := cb.openDurationSeconds) (h := h) (t := t)
    hr
  have hp : ∀ e ∈ reads ++ h, e.time ≤ t := by
    intro e he
    rcases mem_append.mp he with he | he
    · obtain ⟨u, hu, rfl⟩ := mem_map.mp he
      exact hpro u (mem_reverse.mp hu)
    · exact hl e he
  have hti : Timed w.redis.clock (⟨t, .recordFailure⟩ :: (reads ++ h)) := hre.cons hf hp
  rw [hpr]
  change cb.answerAt c w (⟨t, .recordFailure⟩ :: (reads ++ h)) t = _
  rw [answerAt_eq cb hd ho.fresh hti hf (forall_mem_cons.mpr ⟨le_rfl, hp⟩)]
  have hpos : (1 : ℚ) ≤ cb.openDurationSeconds := by exact_mod_cast hd
  have ha : openAt cb.failureThreshold cb.openDurationSeconds (⟨t, .recordFailure⟩ :: (reads ++ h)) t = true ↔
      cb.failureThreshold ≤ 1 := by
    have ha : t < t + cb.openDurationSeconds := by linarith
    rw [openAt_cons_iff, ho', hc, Trips, ho', hc, hr', hro]
    simp [ha]
  simp only [ha]

theorem exists_opened (hf : Unrecorded c w) :
    ∃ h, Opened cb c w h w.redis.clock := by
  let t := w.redis.clock
  let k := (cb.failureThreshold - 1).toNat
  let e : TimedCall := ⟨t, .recordFailure⟩
  have hpos : (0 : ℚ) < cb.openDurationSeconds := by exact_mod_cast hd
  obtain ⟨hc, hr⟩ := replicate_failure (k := k) (n := cb.failureThreshold) (by omega) hpos t
  have ht (k : Nat) : Timed t (List.replicate k e) := by
    refine ⟨pairwise_replicate.mpr (.inr le_rfl), fun e' he' => ?_⟩
    rw [eq_of_mem_replicate he']
  have hl (k : Nat) : ∀ e' ∈ List.replicate k e, e'.time ≤ t := fun e' he' => by
    rw [eq_of_mem_replicate he']
  have htr : Trips cb.failureThreshold cb.openDurationSeconds e (List.replicate k e) := by
    refine ⟨rfl, hc, ?_⟩
    rw [hr]
    omega
  refine ⟨List.replicate (k + 1) e, hf, ht (k + 1), [], List.replicate k e, rfl, ?_, ?_, by simp⟩
  · rw [Ne, answers_open cb hd hf (ht k) le_rfl (hl k), hc]
    exact Bool.false_ne_true
  · have hn : t < t + cb.openDurationSeconds := by linarith
    exact (answers_open cb hd hf (ht (k + 1)) le_rfl (hl (k + 1))).mpr
      (openAt_cons_iff.mpr (.inr ⟨htr, le_rfl, hn⟩))

end

theorem not_opened (hd : cb.openDurationSeconds ≤ 0) : ¬ Opened cb c w h t₀ := by
  intro ho
  obtain ⟨h₁, h₂, _, _, hop, _⟩ := ho.opened
  have ha (h : List TimedCall) : (cb.after c w h).redis.strings (breakerStateKey c) = none := by
    induction h with
    | nil => exact ho.fresh.1
    | cons e h ih =>
      rw [CircuitBreaker.redis_after_cons]
      refine state_absent cb hd ?_ e.call
      rw [Redis.strings_advance, ih]
      rfl
  rw [CircuitBreaker.answerAt, CircuitBreaker.getState, runWith_await] at hop
  have hc : breakerState c ((cb.after c w (⟨t₀, .recordFailure⟩ :: h₂)).redis.advance t₀) = .closed := by
    rw [breakerState, Redis.get, Redis.strings_advance, ha]
    rfl
  change (luaCheckState c cb.halfOpenMax
    ((cb.after c w (⟨t₀, .recordFailure⟩ :: h₂)).redis.advance t₀)).1 = _ at hop
  rw [luaCheckState, hc] at hop
  cases hop

/-- After the open period of a breaker nothing bounds the requests that are let through, and a
failure opens it again at once only with a threshold of one. The documented recovery holds
exactly for a breaker that never opens. -/
theorem recovery_probed_iff (cb : CircuitBreaker) (c : String) :
    (ProbesBounded cb c ∧ ReopensAtOnce cb c ↔ cb.openDurationSeconds ≤ 0) ∧
      (ReopensAtOnce cb c ↔ cb.openDurationSeconds ≤ 0 ∨ cb.failureThreshold ≤ 1) := by
  have hf : Unrecorded c World.empty := ⟨rfl, rfl⟩
  have hv (hd : cb.openDurationSeconds ≤ 0) : ProbesBounded cb c ∧ ReopensAtOnce cb c :=
    ⟨fun w h t₀ ho => absurd ho (not_opened hd), fun w h t₀ ho => absurd ho (not_opened hd)⟩
  refine ⟨⟨fun ⟨hpr, _⟩ => ?_, hv⟩, fun hr => ?_, fun hc => ?_⟩
  · -- One request more than the bound, all at the end of the open period.
    by_contra hd
    have hd : 1 ≤ cb.openDurationSeconds := by omega
    obtain ⟨h, ho⟩ := exists_opened hd hf
    let ts : List ℚ := List.replicate (cb.halfOpenMax.toNat + 1) (World.empty.redis.clock + cb.openDurationSeconds)
    have hor : ts.Pairwise (· ≤ ·) := List.pairwise_replicate.mpr (.inr le_rfl)
    have hl : ∀ t ∈ ts, World.empty.redis.clock + cb.openDurationSeconds ≤ t := fun t ht =>
      (List.eq_of_mem_replicate ht).ge
    have hb := hpr World.empty h _ ho ts hor hl
    rw [(ho.recovery hd hor hl).1, List.length_replicate] at hb
    omega
  · by_contra hc
    rw [not_or] at hc
    have hd : 1 ≤ cb.openDurationSeconds := by omega
    obtain ⟨h, ho⟩ := exists_opened hd hf
    have ha := hr World.empty h _ ho [] List.Pairwise.nil (by simp) _ le_rfl (by simp)
    rw [(ho.recovery hd List.Pairwise.nil (by simp)).2 _ le_rfl (by simp), if_neg hc.2] at ha
    cases ha
  · by_cases hd : cb.openDurationSeconds ≤ 0
    · exact (hv hd).2
    · intro w h t₀ ho ts hor hl t ht hp
      rw [(ho.recovery (by omega) hor hl).2 t ht hp, if_pos (hc.resolve_left hd)]

end Probing

/-- Two failures open the breaker for a minute. After it, five requests pass where one may, and
the next failure leaves it closed. -/
theorem unprobed_recovery :
    let cb : CircuitBreaker := { failureThreshold := 2 }
    let h : List TimedCall := [⟨0, .recordFailure⟩, ⟨0, .recordFailure⟩]
    let probed := cb.probe "gpu" (cb.after "gpu" World.empty h) [60, 61, 62, 63, 64]
    cb.halfOpenMax = 1 ∧ cb.answerAt "gpu" World.empty h 59 = .ok .open ∧ probed.1 = 5 ∧
      cb.answerAt "gpu" probed.2 [⟨65, .recordFailure⟩] 65 = .ok .closed := by
  decide +kernel

end AsyncScheduler
