import AsyncScheduler.Shared.Projection

/-!
# Programs that follow a protocol

A protocol is a partial automaton over the steps of one program.
-/

namespace AsyncScheduler
open List

variable {κ ι σ ε α β L : Type}

/-- The steps of the program are steps of `δ`, as far as they are in `A`; `Q` is how it ends. -/
def Follows (A : Transition κ ι σ → Prop) (δ : L → Transition κ ι σ → Option L) (Q : L → Except ε α → Prop) :
    Prog κ ι σ ε α → L → Prop
  | .ret a, l => Q l (.ok a)
  | .raise e, l => Q l (.error e)
  | .act c n, l => ∀ i s, A ⟨c, i, s⟩ → ∃ l', δ l ⟨c, i, s⟩ = some l' ∧ Follows A δ Q (n i s) l'

namespace Follows
variable {A : Transition κ ι σ → Prop} {δ : L → Transition κ ι σ → Option L} {Q : L → Except ε α → Prop}
  {R : L → Except ε β → Prop} {p : Prog κ ι σ ε α} {l : L}
variable {I : σ → Prop} {C : κ → Prop} {P : α → Prop} {Q' : L → Except ε α → Prop} {stop : ι → Option ε}
  {q : Prog κ ι σ ε α}

theorem mono (hp : Follows A δ Q p l) (hQ : ∀ l r, Q l r → Q' l r) : Follows A δ Q' p l := by
  induction p generalizing l with
  | ret a => exact hQ _ _ hp
  | raise e => exact hQ _ _ hp
  | act c n ih =>
    intro i s hA
    obtain ⟨l', hl', hn⟩ := hp i s hA
    exact ⟨l', hl', ih i s hn⟩

theorem bind {f : α → Prog κ ι σ ε β} (hp : Follows A δ Q p l) (hf : ∀ l a, Q l (.ok a) → Follows A δ R (f a) l)
    (he : ∀ l e, Q l (.error e) → R l (.error e)) : Follows A δ R (p.bind f) l := by
  induction p generalizing l with
  | ret a => exact hf _ _ hp
  | raise e => exact he _ _ hp
  | act c n ih =>
    intro i s hA
    obtain ⟨l', hl', hn⟩ := hp i s hA
    exact ⟨l', hl', ih i s hn⟩

theorem handle {h : ε → Prog κ ι σ ε α} (hp : Follows A δ Q p l)
    (hok : ∀ l a, Q l (.ok a) → Q' l (.ok a)) (hh : ∀ l e, Q l (.error e) → Follows A δ Q' (h e) l) :
    Follows A δ Q' (p.handle h) l := by
  induction p generalizing l with
  | ret a => exact hok _ _ hp
  | raise e => exact hh _ _ hp
  | act c n ih =>
    intro i s hA
    obtain ⟨l', hl', hn⟩ := hp i s hA
    exact ⟨l', hl', ih i s hn⟩

theorem ensure {f : Except ε α → Prog κ ι σ ε Unit} (hp : Follows A δ Q p l)
    (hf : ∀ l r, Q l r → Follows A δ (fun _ _ => True) (f r) l) : Follows A δ (fun _ _ => True) (p.ensure f) l := by
  induction p generalizing l with
  | ret a | raise e => exact (hf _ _ hp).bind (fun _ _ _ => trivial) fun _ _ _ => trivial
  | act c n ih =>
    intro i s hA
    obtain ⟨l', hl', hn⟩ := hp i s hA
    exact ⟨l', hl', ih i s hn⟩

theorem of_issues (hI : ∀ t, A t → I t.pre) (hC : ∀ t, A t → C t.cmd → δ l t = some l) (hp : Issues I C P p) :
    Follows A δ (fun l' r => l' = l ∧ Issues.Settled P r) p l := by
  induction p with
  | ret a => exact ⟨rfl, hp⟩
  | raise e => exact ⟨rfl, trivial⟩
  | act c n ih =>
    intro i s hA
    exact ⟨l, hC _ hA hp.1, ih i s (hp.2 i s (hI _ hA))⟩

/-- A program whose commands are all allowed as long as the local state is one of `M`. -/
theorem of_allowed {M : L → Prop} (hI : ∀ t, A t → I t.pre)
    (hC : ∀ l t, M l → A t → C t.cmd → ∃ l', δ l t = some l' ∧ M l') (hp : Issues I C P p) (hl : M l) :
    Follows A δ (fun l' r => M l' ∧ Issues.Settled P r) p l := by
  induction p generalizing l with
  | ret a => exact ⟨hl, hp⟩
  | raise e => exact ⟨hl, trivial⟩
  | act c n ih =>
    intro i s hA
    obtain ⟨l', hl', hM⟩ := hC l _ hl hA hp.1
    exact ⟨l', hl', ih i s (hp.2 i s (hI _ hA)) hM⟩

theorem settle (hs : ∀ t, A t → stop t.input = none) (hp : Follows A δ Q p l) :
    Follows A δ (fun l' r => ∃ a, r = .ok a ∧ Q l' a) (p.settle stop) l := by
  induction p generalizing l with
  | ret a | raise e => exact ⟨_, rfl, hp⟩
  | act c n ih =>
    intro i s hA
    obtain ⟨l', hl', hn⟩ := hp i s hA
    have hgo : stop i = none := hs _ hA
    simp only [hgo]
    exact ⟨l', hl', ih i s hn⟩

theorem gather (hs : ∀ t, A t → stop t.input = none) (hI : ∀ t, A t → I t.pre)
    (hC : ∀ l t, A t → C t.cmd → δ l t = some l) (sched : List Nat) (hp : Issues I C P p) (hq : Follows A δ Q q l) :
    Follows A δ (fun l' r => ∃ as, r = .ok as ∧ ∃ a, Q l' a) (Prog.gather stop sched [p, q]) l := by
  induction sched generalizing p q l with
  | nil =>
    refine ((of_issues hI (hC l) hp).settle hs).bind ?_ ?_
    · rintro l' r ⟨a, -, rfl, -⟩
      refine Follows.bind (Q := fun l' r => ∃ as, r = .ok as ∧ ∃ a, Q l' a) ?_ (fun l' rs h => ?_) ?_
      · refine (hq.settle hs).bind ?_ ?_
        · rintro l' r ⟨a, -, ha⟩
          exact ⟨_, rfl, a, ha⟩
        · rintro l' e ⟨a, he, -⟩
          cases he
      · obtain ⟨as, -, ha⟩ := h
        exact ⟨_, rfl, ha⟩
      · rintro l' e ⟨as, he, -⟩
        cases he
    · rintro l' e ⟨a, he, -⟩
      cases he
  | cons j sched ih =>
    match j with
    | 0 =>
      cases p with
      | ret a | raise e => exact ih hp hq
      | act c n =>
        intro i s hA
        have hgo : stop i = none := hs _ hA
        simp only [hgo]
        exact ⟨l, hC l _ hA hp.1, ih (hp.2 i s (hI _ hA)) hq⟩
    | 1 =>
      cases q with
      | ret a | raise e => exact ih hp hq
      | act c n =>
        intro i s hA
        obtain ⟨l', hl', hn⟩ := hq i s hA
        have hgo : stop i = none := hs _ hA
        simp only [hgo]
        exact ⟨l', hl', ih hp hn⟩
    | j + 2 => exact ih hp hq

theorem steps {steps : List (Transition κ ι σ)} (hp : Follows A δ Q p l) (h : Steps p steps q)
    (hA : ∀ t ∈ steps, A t) : ∃ l', steps.foldlM δ l = some l' ∧ Follows A δ Q q l' := by
  induction h generalizing l with
  | refl p => exact ⟨l, rfl, hp⟩
  | cons i s _ ih =>
    obtain ⟨l', hl', hn⟩ := hp i s (hA _ mem_cons_self)
    obtain ⟨l'', hl'', hq⟩ := ih hn fun t ht => hA t (mem_cons_of_mem _ ht)
    exact ⟨l'', by rw [foldlM_cons, hl']; exact hl'', hq⟩

end Follows

namespace System
variable {ρ η : Type} {S : System κ ι σ ε ρ η}
variable {s : Sys κ ι σ ε} {k : Nat}

theorem mem_trace_run {t : Transition κ ι σ} (ms : List (Move ρ η ι)) (h : t ∈ s.trace) : t ∈ (S.run s ms).trace := by
  induction ms generalizing s with
  | nil => exact h
  | cons m ms ih =>
    refine ih ?_
    cases m with
    | start r => exact h
    | env e i => exact mem_cons_of_mem _ h
    | step j i =>
      rcases move_step_cases (S := S) s j i with hs | ⟨c, n, -, hm⟩
      · rw [hs]
        exact h
      · rw [hm]
        exact mem_cons_of_mem _ h

theorem run_of_trace {P : σ → Prop} {ms : List (Move ρ η ι)}
    (h : ∀ t ∈ (S.run s ms).trace, P t.pre → P (S.apply t.cmd t.input t.pre)) (hs : P s.world) :
    P (S.run s ms).world := by
  induction ms generalizing s with
  | nil => exact hs
  | cons m ms ih =>
    have hl : ∀ t ∈ (S.run (S.move s m) ms).trace, P t.pre → P (S.apply t.cmd t.input t.pre) := h
    refine ih hl ?_
    cases m with
    | start r => exact hs
    | env e i => exact h _ (mem_trace_run ms mem_cons_self) hs
    | step j i =>
      rcases move_step_cases (S := S) s j i with hsa | ⟨c, n, -, hm⟩
      · rw [hsa]
        exact hs
      · have hme : (⟨c, i, s.world⟩ : Transition κ ι σ) ∈ (S.move s (.step j i)).trace := by
          rw [hm]
          exact mem_cons_self
        rw [hm]
        exact h _ (mem_trace_run ms hme) hs

theorem move_of_idle (h : ∀ c n, s.procs[k]? ≠ some (.act c n)) (i : ι) : S.move s (.step k i) = s := by
  simp only [move]

theorem ownStep_of_idle (h : ∀ c n, s.procs[k]? ≠ some (.act c n)) (i : ι) (j : Nat) :
    s.ownStep j (.step k i : Move ρ η ι) = [] := by
  simp only [Sys.ownStep]
  split
  · subst j
    split
    · rename_i c n hk
      exact absurd hk (h c n)
    · rfl
  · rfl

section
variable {A H : Transition κ ι σ → Prop} {δ : L → Transition κ ι σ → Option L} {Q : L → Except ε Unit → Prop}
  {G : (Nat → L) → List (Transition κ ι σ) → σ → Prop} {l₀ : L}
variable {st : Nat → L} {s : Sys κ ι σ ε}

/-- The programs are each in their local state, those to come in the first one, and `G` holds. -/
structure Conforms (A : Transition κ ι σ → Prop) (δ : L → Transition κ ι σ → Option L) (Q : L → Except ε Unit → Prop)
    (G : (Nat → L) → List (Transition κ ι σ) → σ → Prop) (l₀ : L) (st : Nat → L) (s : Sys κ ι σ ε) : Prop where
  holds : G st s.trace s.world
  follows : ∀ j p, s.procs[j]? = some p → Follows A δ Q p (st j)
  first : ∀ j, s.procs.length ≤ j → st j = l₀

variable (hA : ∀ st tr w c i, G st tr w → H ⟨c, i, w⟩ → A ⟨c, i, w⟩)
  (hstep : ∀ st tr w j c i l, G st tr w → A ⟨c, i, w⟩ → δ (st j) ⟨c, i, w⟩ = some l →
    G (Function.update st j l) (⟨c, i, w⟩ :: tr) (S.apply c i w))
  (henv : ∀ st tr w e i, G st tr w → H ⟨S.ambient e, i, w⟩ →
    G st (⟨S.ambient e, i, w⟩ :: tr) (S.apply (S.ambient e) i w))
include hA hstep henv

theorem Conforms.move {m : Move ρ η ι} (h : Conforms A δ Q G l₀ st s)
    (hpr : ∀ r, m = .start r → Follows A δ Q (S.program r) l₀) (hH : ∀ t ∈ (S.move s m).trace, H t) :
    ∃ st', Conforms A δ Q G l₀ st' (S.move s m) ∧ ∀ j, (s.ownStep j m).foldlM δ (st j) = some (st' j) := by
  cases m with
  | start r =>
    refine ⟨st, ⟨h.holds, fun j p hp => ?_, fun j hj => h.first j ?_⟩, fun j => rfl⟩
    · rw [System.move] at hp
      by_cases hj : j < s.procs.length
      · rw [List.getElem?_append_left hj] at hp
        exact h.follows j p hp
      · rw [List.getElem?_append_right (by omega), List.getElem?_singleton] at hp
        split at hp
        · cases hp
          rw [h.first j (by omega)]
          exact hpr r rfl
        · cases hp
    · simp only [System.move, length_append, length_singleton] at hj
      omega
  | env e i =>
    exact ⟨st, ⟨henv _ _ _ e i h.holds (hH _ mem_cons_self), h.follows, h.first⟩, fun j => rfl⟩
  | step k i =>
    by_cases ha : ∃ c n, s.procs[k]? = some (.act c n)
    · obtain ⟨c, n, hk⟩ := ha
      have hlen : k < s.procs.length := (List.getElem?_eq_some_iff.mp hk).1
      rw [move_of_act hk i] at hH ⊢
      have hAt := hA _ _ _ c i h.holds (hH _ mem_cons_self)
      obtain ⟨l, hl, hn⟩ := h.follows k _ hk i s.world hAt
      refine ⟨Function.update st k l, ⟨hstep _ _ _ k c i l h.holds hAt hl, fun j p hp => ?_, fun j hj => ?_⟩,
        fun j => ?_⟩
      · by_cases hj : j = k
        · subst hj
          rw [List.getElem?_set_self hlen] at hp
          cases hp
          rw [Function.update_self]
          exact hn
        · rw [List.getElem?_set_ne (Ne.symm hj)] at hp
          rw [Function.update_of_ne hj]
          exact h.follows j p hp
      · rw [length_set] at hj
        rw [Function.update_of_ne (by omega)]
        exact h.first j hj
      · by_cases hj : j = k
        · subst hj
          rw [ownStep_of_act hk i, Function.update_self, foldlM_cons, hl]
          rfl
        · rw [Sys.ownStep, if_neg (Ne.symm hj), Function.update_of_ne hj]
          rfl
    · have hi := fun c n hk => ha ⟨c, n, hk⟩
      refine ⟨st, (move_of_idle hi i).symm ▸ h, fun j => ?_⟩
      rw [ownStep_of_idle hi i j]
      rfl

/-- Over any interleaving; the local state of a program is where its own steps have led it. -/
theorem Conforms.run (ms : List (Move ρ η ι)) (h : Conforms A δ Q G l₀ st s)
    (hp : ∀ r, Move.start r ∈ ms → Follows A δ Q (S.program r) l₀) (hH : ∀ t ∈ (S.run s ms).trace, H t) :
    ∃ st', Conforms A δ Q G l₀ st' (S.run s ms) ∧ ∀ j, (S.stepsOf j s ms).foldlM δ (st j) = some (st' j) := by
  induction ms generalizing st s with
  | nil => exact ⟨st, h, fun j => rfl⟩
  | cons m ms ih =>
    have hn : ∀ t ∈ (S.move s m).trace, H t := fun t ht => hH t (mem_trace_run ms ht)
    obtain ⟨st₁, h₁, ho⟩ := h.move hA hstep henv (fun r hr => hp r (hr ▸ mem_cons_self)) hn
    obtain ⟨st', h', hl⟩ := ih h₁ (fun r hr => hp r (mem_cons_of_mem _ hr)) hH
    refine ⟨st', h', fun j => ?_⟩
    rw [stepsOf, foldlM_append, ho j]
    exact hl j

end

end System

end AsyncScheduler
