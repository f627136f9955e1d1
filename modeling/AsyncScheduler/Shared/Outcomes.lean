import AsyncScheduler.Shared.Interleaving

/-!
# How a program can end

`Outcomes A Q p`: every run of `p` whose steps are all in `A` ends in an outcome of `Q`.
-/

namespace AsyncScheduler

variable {κ ι σ ε ε' α β : Type}

def Outcomes (A : Transition κ ι σ → Prop) (Q : Except ε α → Prop) : Prog κ ι σ ε α → Prop
  | .ret a => Q (.ok a)
  | .raise e => Q (.error e)
  | .act c n => ∀ i s, A ⟨c, i, s⟩ → Outcomes A Q (n i s)

namespace Outcomes
variable {A : Transition κ ι σ → Prop} {Q Q₁ : Except ε α → Prop} {Q' : Except ε β → Prop}
variable {p : Prog κ ι σ ε α}

theorem mono (hp : Outcomes A Q p) (hQ : ∀ r, Q r → Q₁ r) : Outcomes A Q₁ p := by
  induction p with
  | ret a => exact hQ _ hp
  | raise e => exact hQ _ hp
  | act c n ih => exact fun i s hA => ih i s (hp i s hA)

theorem bind {f : α → Prog κ ι σ ε β} (hp : Outcomes A Q p)
    (hok : ∀ a, Q (.ok a) → Outcomes A Q' (f a)) (he : ∀ e, Q (.error e) → Q' (.error e)) :
    Outcomes A Q' (p.bind f) := by
  induction p with
  | ret a => exact hok a hp
  | raise e => exact he e hp
  | act c n ih => exact fun i s hA => ih i s (hp i s hA)

theorem handle {h : ε → Prog κ ι σ ε α} (hp : Outcomes A Q p)
    (hok : ∀ a, Q (.ok a) → Q₁ (.ok a)) (he : ∀ e, Q (.error e) → Outcomes A Q₁ (h e)) :
    Outcomes A Q₁ (p.handle h) := by
  induction p with
  | ret a => exact hok a hp
  | raise e => exact he e hp
  | act c n ih => exact fun i s hA => ih i s (hp i s hA)

theorem recover {Q₂ : Except ε' α → Prop} {h : ε → Prog κ ι σ ε' α} (hp : Outcomes A Q p)
    (hok : ∀ a, Q (.ok a) → Q₂ (.ok a)) (he : ∀ e, Q (.error e) → Outcomes A Q₂ (h e)) :
    Outcomes A Q₂ (p.recover h) := by
  induction p with
  | ret a => exact hok a hp
  | raise e => exact he e hp
  | act c n ih => exact fun i s hA => ih i s (hp i s hA)

theorem ensure {f : Except ε α → Prog κ ι σ ε Unit} (hp : Outcomes A Q p)
    (hf : ∀ r, Q r → Outcomes A (fun closed => Q₁ (closed.bind fun _ => r)) (f r)) : Outcomes A Q₁ (p.ensure f) := by
  induction p with
  | ret a | raise e => exact (hf _ hp).bind (fun _ h => h) fun _ h => h
  | act c n ih => exact fun i s hA => ih i s (hp i s hA)

theorem forEach {Q : Except ε Unit → Prop} {f : β → Prog κ ι σ ε Unit} {l : List β} (hn : Q (.ok ()))
    (hf : ∀ b ∈ l, Outcomes A Q (f b)) : Outcomes A Q (Prog.forEach f l) := by
  induction l with
  | nil => exact hn
  | cons b l ih =>
    refine (hf b List.mem_cons_self).bind (fun _ _ => ?_) fun _ he => he
    exact ih fun b' hb' => hf b' (List.mem_cons_of_mem _ hb')

section Gather
variable {stop : ι → Option ε} (hstop : ∀ t, A t → stop t.input = none)
include hstop

theorem settle (p : Prog κ ι σ ε α) : Outcomes A (fun r => ∃ a, r = .ok a) (p.settle stop) := by
  induction p with
  | ret a => exact ⟨_, rfl⟩
  | raise e => exact ⟨_, rfl⟩
  | act c n ih =>
    intro i s hA
    have hgo : stop i = none := hstop _ hA
    simp only [hgo]
    exact ih i s

theorem settleAll (ps : List (Prog κ ι σ ε α)) : Outcomes A (fun r => ∃ rs, r = .ok rs) (Prog.settleAll stop ps) := by
  induction ps with
  | nil => exact ⟨_, rfl⟩
  | cons p ps ih =>
    refine (settle hstop p).bind (fun r _ => ?_) (by simp)
    exact ih.bind (fun rs _ => ⟨_, rfl⟩) (by simp)

/-- Whatever becomes of the children, a `gather` that is not interrupted returns. -/
theorem gather (sched : List Nat) (ps : List (Prog κ ι σ ε α)) :
    Outcomes A (fun r => ∃ rs, r = .ok rs) (Prog.gather stop sched ps) := by
  induction sched generalizing ps with
  | nil => exact settleAll hstop ps
  | cons j sched ih =>
    unfold Prog.gather
    split
    · intro i s hA
      have hgo : stop i = none := hstop _ hA
      simp only [hgo]
      exact ih _
    · exact ih ps

end Gather

end Outcomes

/-- Every run of steps in `A` returns, and a value of `Q`. -/
def Returns (A : Transition κ ι σ → Prop) (Q : α → Prop) (p : Prog κ ι σ ε α) : Prop :=
  Outcomes A (fun r => ∃ a, r = .ok a ∧ Q a) p

namespace Returns
variable {A : Transition κ ι σ → Prop} {Q Q₁ : α → Prop} {R : β → Prop}
variable {p : Prog κ ι σ ε α}

theorem ret {a : α} (ha : Q a) : Returns A Q (.ret a : Prog κ ι σ ε α) := ⟨a, rfl, ha⟩

theorem bind {f : α → Prog κ ι σ ε β} (hp : Returns A Q p) (hf : ∀ a, Q a → Returns A R (f a)) :
    Returns A R (p.bind f) := by
  refine Outcomes.bind hp ?_ ?_
  · rintro a ⟨b, hb, hQ⟩
    cases hb
    exact hf a hQ
  · rintro e ⟨a, ha, -⟩
    cases ha

theorem handle (h : ε → Prog κ ι σ ε α) (hp : Returns A Q p) : Returns A Q (p.handle h) := by
  refine Outcomes.handle hp (fun a ha => ha) ?_
  rintro e ⟨a, ha, -⟩
  cases ha

theorem forEach {f : β → Prog κ ι σ ε Unit} {l : List β} (hf : ∀ b ∈ l, Returns A (fun _ => True) (f b)) :
    Returns A (fun _ => True) (Prog.forEach f l) := Outcomes.forEach ⟨(), rfl, trivial⟩ hf

end Returns

end AsyncScheduler
