import AsyncScheduler.Common.RedisHa

/-!
# Locks through the HA client

A lock is taken by `SET NX` and believed when the answer is true.
-/

namespace AsyncScheduler
open Prog List AsyncScheduler.System

/-- One `set(key, value, nx=True, ex=...)` of a client. -/
structure HaSet where
  client : Nat
  key : String
  value : String
  ex : Option ℚ

abbrev HaStep := Transition (HaCommand String) Fault (HaWorld String)

def HaStep.Stores (key value : String) (t : HaStep) : Prop :=
  t.pre.redis.existsKey key = false ∧ (t.cmd.apply t.input t.pre).redis.get key = some (some value)

def HaSet.program (c : HaSet) (has : Nat → RedisHA) : Ha String (HaReply String) :=
  (has c.client).setNx c.client c.key c.value c.ex

def HaSet.Granted (c : HaSet) (has : Nat → RedisHA) (steps : List HaStep) : Prop :=
  ∃ a, Steps (c.program has) steps (.ret a) ∧ a.truthy (· ≠ "") = true

def haSystem (has : Nat → RedisHA) : System (HaCommand String) Fault (HaWorld String) PyErr HaSet (HaCommand String) where
  apply := HaCommand.apply
  program c := (c.program has).void
  ambient := id

/-- Whatever fails and whatever others do meanwhile: a call made in this state returns a true
value only after it has stored its own. -/
def HonestCall (has : Nat → RedisHA) (c : HaSet) (w : HaWorld String) : Prop :=
  ∀ steps : List HaStep, (∀ t ∈ steps.head?, t.pre = w) → c.Granted has steps → ∃ t ∈ steps, t.Stores c.key c.value

/-- Of the calls for one key at most one is granted as long as no step removes the key. -/
def ExclusiveGrants (has : Nat → RedisHA) : Prop :=
  ∀ (w : HaWorld String) (calls : List HaSet) (ms : List (Move HaSet (HaCommand String) Fault)) (key : String),
    let S := haSystem has
    let s : Sys (HaCommand String) Fault (HaWorld String) PyErr := ⟨w, calls.map S.program, []⟩
    (∀ t ∈ (S.run s ms).trace, t.pre.redis.existsKey key = true →
      (t.cmd.apply t.input t.pre).redis.existsKey key = true) →
    ∀ (i j : Nat) (c d : HaSet), calls[i]? = some c → calls[j]? = some d → c.key = key → d.key = key →
      c.Granted has (S.stepsOf i s ms) → d.Granted has (S.stepsOf j s ms) → i = j

section Honest
variable {has : Nat → RedisHA} {c : HaSet}
variable {key value : String} {steps : List HaStep}

theorem stores_of_answer {i : Fault} {w : HaWorld String} {ex : Option ℚ} {a : HaReply String}
    (h : i.answer ((HaMethod.set key value true ex).reply w.redis) = .ok a) (ha : a.truthy (· ≠ "") = true) :
    HaStep.Stores key value ⟨.call (.set key value true ex), i, w⟩ := by
  cases i with
  | fail applied => cases h
  | cancel applied => cases h
  | ok =>
    change (HaMethod.set key value true ex).reply w.redis = .ok a at h
    rw [HaMethod.reply] at h
    split at h
    · cases h
    · rename_i hv
      rw [Except.ok.injEq, Bool.true_and] at h
      split at h
      · subst h
        cases ha
      · rename_i hf
        have hf : w.redis.existsKey key = false := by simpa using hf
        refine ⟨hf, ?_⟩
        have he : (HaMethod.set key value true ex).exec w.redis = w.redis.set key value ex := by
          simp [HaMethod.exec, hf] at hv ⊢
          simp [hv]
        change ((HaMethod.set key value true ex).exec w.redis).get key = _
        rw [he, Keyspace.get_set_self]

def storing (key value : String) (l : Prop) (t : HaStep) : Option Prop := some (l ∨ t.Stores key value)

/-- How a call of an honest client ends: with a true value only if it has stored its own. -/
def Earned (l : Prop) (r : Except PyErr (HaReply String)) : Prop :=
  ∀ a, r = .ok a → a.truthy (· ≠ "") = true → l

theorem follows_attempts {ha : RedisHA} (n : Nat) (key value : String) (ex : Option ℚ) (k : Nat)
    (hh : ha.degradationMode = false ∨ k = 0) (l : Prop) :
    Follows (fun _ => True) (storing key value) Earned (ha.attempts n (.set key value true ex) k) l := by
  induction k generalizing l with
  | zero =>
    intro a ha ht
    cases ha
    cases ht
  | succ k ih =>
    have hp : ha.degradationMode = false := hh.resolve_right (Nat.succ_ne_zero k)
    refine follows_exceptException (Q := Earned) ?_ (fun _ _ h => h) ?_ ?_
    · refine Follows.bind (Q := Earned) (follows_awaiting fun i w _ => ⟨_, rfl, fun a ha ht => ?_⟩) ?_ fun _ e _ => ?_
      · exact .inr (stores_of_answer ha ht)
      · exact fun l result hr _ w _ => ⟨_, rfl, fun a ha ht => .inl (hr a ha ht)⟩
      · intro a ha
        cases ha
    · -- The handler counts the failure, and tries again or gives up.
      refine fun l e _ _ _ w _ => ⟨_, rfl, ?_⟩
      simp only [bind_eq, ret_bind]
      split
      · refine fun i w _ => ⟨_, rfl, ?_⟩
        cases i with
        | cancel applied =>
          intro a ha
          cases ha
        | _ => exact ih (.inl hp) _
      · refine fun _ w _ => ⟨_, rfl, ?_⟩
        simp only [ret_bind, hp, Bool.false_eq_true, false_and, if_false]
        intro a ha
        cases ha
    · intro l e _ _ a ha
      cases ha

theorem stores_of_foldlM {l l' : Prop}
    (h : steps.foldlM (storing key value) l = some l') (hl' : l') : l ∨ ∃ t ∈ steps, t.Stores key value := by
  induction steps generalizing l with
  | nil =>
    cases h
    exact .inl hl'
  | cons t steps ih =>
    rcases ih h with (hl | hs) | ⟨u, hu, hs⟩
    · exact .inl hl
    · exact .inr ⟨t, mem_cons_self, hs⟩
    · exact .inr ⟨u, mem_cons_of_mem _ hu, hs⟩

def RedisHA.Truthful (ha : RedisHA) : Prop := ha.degradationMode = false ∨ ha.maxRetries ≤ 0

theorem granted_stores (hg : c.Granted has steps)
    (hh : (has c.client).Truthful ∨ ∀ t ∈ steps.head?, (t.pre.clients c.client).started = false ∨
      (t.pre.clients c.client).shouldAllow (has c.client).resetTimeout t.pre.redis.clock = false) :
    ∃ t ∈ steps, t.Stores c.key c.value := by
  obtain ⟨a, hst, htr⟩ := hg
  cases hst with
  | cons i w hr =>
    simp only [ret_bind] at hr
    split at hr
    · cases hr
    · rename_i hal
      split at hr
      · cases hr
      · rename_i hs
        have htru : (has c.client).Truthful := hh.resolve_right fun hre => by
          rcases hre _ rfl with h | h
          · have h : (w.clients c.client).started = false := h
            simp [h] at hs
          · have h : (w.clients c.client).shouldAllow (has c.client).resetTimeout w.redis.clock = false := h
            simp [h] at hal
        have hat := follows_attempts c.client c.key c.value c.ex
          (has c.client).maxRetries.toNat (htru.imp_right Int.toNat_of_nonpos) False
        obtain ⟨l, hl, he⟩ := hat.steps hr fun _ _ => trivial
        rcases stores_of_foldlM hl (he a rfl htr) with hf | ⟨t, ht, hsto⟩
        · exact hf.elim
        · exact ⟨t, mem_cons_of_mem _ ht, hsto⟩

end Honest

section Degraded
variable {ha : RedisHA} {n : Nat} {key value : String} {ex : Option ℚ} {w : HaWorld String}
variable {m : HaMethod String} {C : HaCommand String → Prop}

theorem issues_attempts (hc : C (.call m)) (hm : ∀ u, C (.memory n u)) (hs : C .sleep) (k : Nat) :
    Issues (fun _ => True) C (fun _ => True) (ha.attempts n m k) := by
  induction k with
  | zero => trivial
  | succ k ih =>
    have hu (u : HaUpdate String) : Issues (fun _ => True) C (fun _ => True)
        (atOnce (.memory n u) fun _ => () : Ha String Unit) := ⟨hm u, fun _ _ _ => trivial⟩
    refine Issues.handle ?_ fun e => ?_
    · refine (issues_awaiting hc fun _ _ _ _ => trivial).bind fun result _ => ?_
      exact (hu _).bind fun _ _ => trivial
    · split
      · refine (hu _).bind fun _ _ => ?_
        split
        · exact (issues_pausing hs).bind fun _ _ => ih
        · refine (hu _).bind fun _ _ => ?_
          split
          · exact (hu _).bind fun _ _ => trivial
          · trivial
      · trivial

theorem issues_callWithRetry (hc : C (.call m)) (hm : ∀ u, C (.memory n u)) (hs : C .sleep) :
    Issues (fun _ => True) C (fun _ => True) (ha.callWithRetry n m) := by
  refine ⟨hm _, fun i w _ => ?_⟩
  simp only [ret_bind]
  split
  · trivial
  · split
    · trivial
    · exact issues_attempts hc hm hs _

theorem runWith_attempts_down (hd : ha.degradationMode = true) (k : Nat) :
    ∃ w', (ha.attempts n (.set key value true ex) (k + 1)).runWith HaCommand.apply (.fail false) w = (.ok .true, w') := by
  induction k generalizing w with
  | zero =>
    simp [RedisHA.attempts, exceptException, awaiting, atOnce, Prog.handle, Prog.bind, connectionLost, PyErr.isException,
      hd, HaMethod.name, RedisHA.deferred, RedisHA.pretend]
  | succ k ih =>
    rw [RedisHA.attempts]
    simpa [exceptException, awaiting, pausing, atOnce, Prog.handle, Prog.bind, connectionLost, PyErr.isException,
      Fault.interrupt] using ih

theorem runWith_callWithRetry {i : Fault} (hs : (w.clients n).started = true)
    (hal : (w.clients n).shouldAllow ha.resetTimeout w.redis.clock = true) :
    (ha.callWithRetry n m).runWith HaCommand.apply i w =
      (ha.attempts n m ha.maxRetries.toNat).runWith HaCommand.apply i
        (w.update n (·.admitCall ha.resetTimeout w.redis.clock)) := by
  rw [RedisHA.callWithRetry, bind_eq, runWith_bind]
  simp only [atOnce, runWith_act, runWith_ret, hal, hs, Bool.not_true, Bool.false_eq_true, if_false]
  rfl

theorem redis_apply_down {c : HaCommand String} (hc : ∀ t, c ≠ .advance t) (w : HaWorld String) :
    (c.apply (.fail false) w).redis = w.redis := by
  cases c with
  | call m => rfl
  | memory n u => cases u <;> rfl
  | sleep => rfl
  | advance t => exact absurd rfl (hc t)

theorem keeps_key {has : Nat → RedisHA} {c : HaSet} {steps : List HaStep} {q : Ha String (HaReply String)}
    (h : Steps (c.program has) steps q) :
    ∀ t ∈ steps, t.pre.redis.existsKey c.key = true → (t.cmd.apply t.input t.pre).redis.existsKey c.key = true := by
  let C (d : HaCommand String) : Prop := ∀ i (w : HaWorld String), w.redis.existsKey c.key = true →
    (d.apply i w).redis.existsKey c.key = true
  have hc : C (.call (.set c.key c.value true c.ex)) := by
    intro i w he
    simp only [HaCommand.apply]
    split
    · have hs : (HaMethod.set c.key c.value true c.ex).exec w.redis = w.redis := by
        simp [HaMethod.exec, he]
      rw [HaWorld.exec, hs]
      exact he
    · exact he
  have hm (u : HaUpdate String) : C (.memory c.client u) := by
    intro i w he
    cases u <;> exact he
  intro t ht
  exact h.of_issues (issues_callWithRetry hc hm fun _ _ he => he) t ht t.input t.pre

variable (key value ex) in
/-- A client that is not truthful can grant a key that it never stored. -/
theorem exists_false_grant (hd : ¬ ha.Truthful) (hsta : (w.clients n).started = true)
    (hal : (w.clients n).shouldAllow ha.resetTimeout w.redis.clock = true) :
    ∃ steps w', Path HaCommand.apply (ha.setNx n key value ex) w steps (.ret .true) w' ∧
      ∀ t ∈ steps, ¬ HaStep.Stores key value t ∧ (t.cmd.apply t.input t.pre).redis = t.pre.redis := by
  have hm : ha.degradationMode = true := by
    by_contra hm
    exact hd (.inl (by simpa using hm))
  obtain ⟨k, hk⟩ : ∃ k, ha.maxRetries.toNat = k + 1 := by
    refine ⟨ha.maxRetries.toNat - 1, ?_⟩
    have hpos : ¬ ha.maxRetries ≤ 0 := fun hle => hd (.inr hle)
    omega
  obtain ⟨w', hr⟩ := runWith_attempts_down (n := n)
    (w := w.update n (·.admitCall ha.resetTimeout w.redis.clock)) hm k
  have hc : (ha.setNx n key value ex).runWith HaCommand.apply (.fail false) w = (.ok .true, w') := by
    rw [RedisHA.setNx, runWith_callWithRetry hsta hal, hk, hr]
  refine ⟨_, w', Path.of_runWith hc, fun t ht => ?_⟩
  have hcm : ∀ u, t.cmd ≠ .advance u := Issues.of_mem_transitions
    (issues_callWithRetry (C := fun c => ∀ u, c ≠ .advance u) (by simp) (by simp) (by simp)) ht
  have hs : (t.cmd.apply t.input t.pre).redis = t.pre.redis := by
    rw [input_of_mem_transitions ht]
    exact redis_apply_down hcm t.pre
  refine ⟨fun hsto => ?_, hs⟩
  obtain ⟨hab, hst⟩ := hsto
  rw [hs] at hst
  rw [Keyspace.existsKey_of_get hst] at hab
  cases hab

theorem runWith_attempts_free (hr : w.clients n = .connected) (hf : w.redis.existsKey key = false) (k : Nat) :
    (ha.attempts n (.set key value true none) (k + 1)).runWith HaCommand.apply .ok w =
      (.ok .true, { w with redis := w.redis.set key value none }) := by
  have he : (HaMethod.set key value true none).exec w.redis = w.redis.set key value none := by
    simp [HaMethod.exec, Keyspace.validEx, hf]
  have hre : (HaMethod.set key value true none).reply w.redis = .ok .true := by
    simp [HaMethod.reply, Keyspace.validEx, hf]
  have hs : ({ w with redis := w.redis.set key value none } : HaWorld String).exec (.memory n .succeed) =
      { w with redis := w.redis.set key value none } := by
    rw [HaWorld.exec]
    refine HaWorld.update_eq_self ?_
    change ({ (w.clients n).recordSuccess with isConnected := true } : HaMemory String) = w.clients n
    rw [hr]
    rfl
  have hb : Prog.runWith HaCommand.apply .ok (do
      let result ← awaiting (.call (.set key value true none)) fun w : HaWorld String =>
        (HaMethod.set key value true none).reply w.redis
      atOnce (.memory n .succeed) fun _ => ()
      pure result) w = (.ok .true, { w with redis := w.redis.set key value none }) := by
    rw [bind_eq, runWith_bind, runWith_awaiting, hre]
    change (Except.ok HaReply.true, HaWorld.exec { w with redis := (HaMethod.set key value true none).exec w.redis }
      (.memory n .succeed)) = _
    rw [he, hs]
  rw [RedisHA.attempts, exceptException, runWith_handle, hb]

variable (key value) in
theorem exists_true_grant (hre : ¬ ha.maxRetries ≤ 0) (hr : w.clients n = .connected)
    (hf : w.redis.existsKey key = false) :
    ∃ steps, Path HaCommand.apply (ha.setNx n key value none) w steps (.ret .true)
      { w with redis := w.redis.set key value none } := by
  obtain ⟨k, hk⟩ : ∃ k, ha.maxRetries.toNat = k + 1 := ⟨ha.maxRetries.toNat - 1, by omega⟩
  have hc : (ha.callWithRetry n (.set key value true none)).runWith HaCommand.apply .ok w = _ :=
    runWith_callWithRetry (by rw [hr]; rfl) (by rw [hr]; rfl)
  have had : w.update n (·.admitCall ha.resetTimeout w.redis.clock) = w := by
    refine HaWorld.update_eq_self ?_
    rw [hr]
    simp [HaMemory.admitCall, HaMemory.connected]
  rw [hk, had, runWith_attempts_free hr hf] at hc
  exact ⟨_, Path.of_runWith hc⟩

end Degraded

section
variable {has : Nat → RedisHA}

theorem honestCall_iff (c : HaSet) (w : HaWorld String) :
    HonestCall has c w ↔ (has c.client).Truthful ∨ (w.clients c.client).started = false ∨
      (w.clients c.client).shouldAllow (has c.client).resetTimeout w.redis.clock = false := by
  constructor
  · intro hho
    by_contra hc
    simp only [not_or, Bool.not_eq_false] at hc
    obtain ⟨hd, hs, hal⟩ := hc
    obtain ⟨steps, w', hp, hn⟩ := exists_false_grant c.key c.value c.ex hd hs hal
    obtain ⟨t, ht, hst⟩ := hho steps hp.pre_head ⟨.true, hp.toSteps, rfl⟩
    exact (hn t ht).1 hst
  · intro hc steps hh hg
    refine granted_stores hg (hc.imp_right fun hr t ht => ?_)
    rw [hh t ht]
    exact hr

section
variable {s : Sys (HaCommand String) Fault (HaWorld String) PyErr} {key : String}
  {ms : List (Move HaSet (HaCommand String) Fault)}
  (hkept : ∀ t ∈ ((haSystem has).run s ms).trace, t.pre.redis.existsKey key = true →
    (t.cmd.apply t.input t.pre).redis.existsKey key = true)
include hkept

theorem exists_after {before mid after : List (Move HaSet (HaCommand String) Fault)} {m : Move HaSet (HaCommand String) Fault}
    {t : HaStep} {v : String} (hms : ms = before ++ m :: (mid ++ after)) (hst : t.Stores key v)
    (hp : ((haSystem has).run s (before ++ [m])).world = t.cmd.apply t.input t.pre) :
    ((haSystem has).run s (before ++ m :: mid)).world.redis.existsKey key = true := by
  have hs : ms = (before ++ [m]) ++ mid ++ after := by simp [hms]
  have hn : ((haSystem has).run s (before ++ [m])).world.redis.existsKey key = true := by
    rw [hp]
    exact Keyspace.existsKey_of_get hst.2
  have hr : (haSystem has).run s (before ++ m :: mid) = (haSystem has).run ((haSystem has).run s (before ++ [m])) mid := by
    rw [← run_append, append_assoc]
    rfl
  rw [hr]
  refine run_of_trace (S := haSystem has) (P := fun w => w.redis.existsKey key = true) (fun t ht => hkept t ?_) hn
  rw [hs, run_append, run_append]
  exact mem_trace_run after ht

theorem stored_once {v v' : String} {i j : Nat} {t u : HaStep} (ht : t ∈ (haSystem has).stepsOf i s ms)
    (hu : u ∈ (haSystem has).stepsOf j s ms) (hs : t.Stores key v) (hs' : u.Stores key v') : i = j := by
  obtain ⟨before, a, after, hms, hpr, hp, -⟩ := mem_stepsOf ht
  obtain ⟨before', a', after', hms', hpr', hp', -⟩ := mem_stepsOf hu
  rcases append_eq_append_iff.mp (hms.symm.trans hms') with ⟨mid, hb, haf⟩ | ⟨mid, hb, haf⟩
  · cases mid with
    | nil => exact (Move.step.inj (List.cons.inj haf).1).1
    | cons m mid =>
      obtain ⟨rfl, haf⟩ := List.cons.inj haf
      have he := exists_after hkept (haf ▸ hms) hs hp
      rw [← hb, ← hpr', hs'.1] at he
      cases he
  · cases mid with
    | nil => exact (Move.step.inj (List.cons.inj haf).1).1.symm
    | cons m mid =>
      obtain ⟨rfl, haf⟩ := List.cons.inj haf
      have he := exists_after hkept (haf ▸ hms') hs' hp'
      rw [← hb, ← hpr, hs.1] at he
      cases he

end

/-- Grants exclude each other exactly when every client is truthful. -/
theorem exclusiveGrants_iff : ExclusiveGrants has ↔ ∀ n, (has n).Truthful := by
  constructor
  · -- The client takes the key, loses its connection and is asked again.
    intro he n
    by_contra hde
    have hr : ¬ (has n).maxRetries ≤ 0 := fun hle => hde (.inr hle)
    let w : HaWorld String := ⟨.empty, fun _ => .connected⟩
    let c : HaSet := ⟨n, "k", "v", none⟩
    let S := haSystem has
    let s : Sys (HaCommand String) Fault (HaWorld String) PyErr := ⟨w, [S.program c, S.program c], []⟩
    obtain ⟨steps, hp⟩ := exists_true_grant "k" "v" (w := w) (n := n) hr rfl rfl
    obtain ⟨steps', w', hp', hn⟩ := exists_false_grant "k" "v" none (n := n)
      (w := { w with redis := w.redis.set "k" "v" none }) hde rfl rfl
    obtain ⟨ms, _, hw, hpr, htra, how, ho⟩ := hp.void.exists_run S 0 (z := s) rfl rfl
    obtain ⟨ms', _, _, _, ht', how', ho'⟩ := hp'.void.exists_run S 1 (z := S.run s ms) hw
      (by rw [hpr]; rfl)
    have hf : S.stepsOf 0 s (ms ++ ms') = steps := by
      rw [stepsOf_append, how, ho' 0 (by decide), append_nil]
    have hse : S.stepsOf 1 s (ms ++ ms') = steps' := by
      rw [stepsOf_append, ho 1 (by decide), how', nil_append]
    have hkept : ∀ t ∈ (S.run s (ms ++ ms')).trace, t.pre.redis.existsKey "k" = true →
        (t.cmd.apply t.input t.pre).redis.existsKey "k" = true := by
      rw [run_append, ht', htra]
      intro t ht
      simp only [mem_append, mem_reverse, s, not_mem_nil, or_false] at ht
      rcases ht with ht | ht
      · exact keeps_key (c := c) hp'.toSteps t ht
      · exact keeps_key (c := c) hp.toSteps t ht
    have hsa := he w [c, c] (ms ++ ms') "k" hkept 0 1 c c rfl rfl rfl rfl
      ⟨.true, hf ▸ hp.toSteps, rfl⟩ ⟨.true, hse ▸ hp'.toSteps, rfl⟩
    cases hsa
  · intro htr w calls ms key S s hkept i j c d hi hj hc hd hg hg'
    obtain ⟨t, ht, hs⟩ := granted_stores hg (.inl (htr _))
    obtain ⟨u, hu, hs'⟩ := granted_stores hg' (.inl (htr _))
    rw [hc] at hs
    rw [hd] at hs'
    exact stored_once hkept ht hu hs hs'

end

/-- A true answer of the HA client means a stored value exactly for the calls that the client
refuses at once and for clients without degradation, and only such clients exclude each other. -/
theorem ha_grants_iff (has : Nat → RedisHA) :
    (∀ c w, HonestCall has c w ↔ (has c.client).degradationMode = false ∨ (has c.client).maxRetries ≤ 0 ∨
      (w.clients c.client).started = false ∨
      (w.clients c.client).shouldAllow (has c.client).resetTimeout w.redis.clock = false) ∧
    (ExclusiveGrants has ↔ ∀ n, (has n).degradationMode = false ∨ (has n).maxRetries ≤ 0) := by
  refine ⟨fun c w => ?_, exclusiveGrants_iff⟩
  rw [honestCall_iff, RedisHA.Truthful, or_assoc]

/-- Two clients with the settings of the client factory: the first takes the key, the second
has lost its connection. Both are told that they have it. -/
theorem both_clients_granted :
    let has : Nat → RedisHA := fun _ => {}
    let w : HaWorld String := ⟨.empty, fun _ => .connected⟩
    let first := ((has 0).setNx 0 "cron_leader" "a" (some 90)).runWith HaCommand.apply .ok w
    let second := ((has 1).setNx 1 "cron_leader" "b" (some 90)).runWith HaCommand.apply (.fail false) first.2
    (first.1.toOption.map (·.truthy (· ≠ "")), second.1.toOption.map (·.truthy (· ≠ ""))) = (some true, some true) ∧
      second.2.redis.get "cron_leader" = some (some "a") := by
  decide +kernel

end AsyncScheduler
