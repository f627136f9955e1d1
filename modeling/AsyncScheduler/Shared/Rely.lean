import AsyncScheduler.Shared.Interleaving

/-!
# One program among others

The others are known by what they may do to the state (`R`) and the environment by which input it
may give to a command (`A`).
-/

namespace AsyncScheduler

variable {κ ι σ ε ε' α β : Type}

/-- The steps of a run so far, and the state it has reached. -/
structure Traced (κ ι σ : Type) where
  steps : List (Transition κ ι σ)
  state : σ

section
variable (apply : κ → ι → σ → σ) (A : κ → ι → Prop) (R : σ → σ → Prop)

/-- A whole run of the program: its steps, its outcome and the state it leaves. -/
inductive Runs : Prog κ ι σ ε α → σ → List (Transition κ ι σ) → Except ε α → σ → Prop
  | ret (a : α) (s : σ) : Runs (.ret a) s [] (.ok a) s
  | raise (e : ε) (s : σ) : Runs (.raise e) s [] (.error e) s
  | act {c : κ} {n : ι → σ → Prog κ ι σ ε α} {s s₁ s' : σ} {i : ι} {steps : List (Transition κ ι σ)} {r : Except ε α} :
    R s s₁ → A c i → Runs (n i s₁) (apply c i s₁) steps r s' → Runs (.act c n) s (⟨c, i, s₁⟩ :: steps) r s'

/-- Every run from here ends with an outcome, steps and a state as `Q` says. -/
def Meets (Q : Except ε α → Traced κ ι σ → Prop) : Prog κ ι σ ε α → Traced κ ι σ → Prop
  | .ret a, s => Q (.ok a) s
  | .raise e, s => Q (.error e) s
  | .act c n, s => ∀ s₁ i, R s.state s₁ → A c i → Meets Q (n i s₁) ⟨s.steps ++ [⟨c, i, s₁⟩], apply c i s₁⟩

end

variable {apply : κ → ι → σ → σ} {A : κ → ι → Prop} {R : σ → σ → Prop}

namespace Runs
variable {p : Prog κ ι σ ε α} {s s' : σ} {steps : List (Transition κ ι σ)}

theorem of_runOn {i : ι} {is : List ι} (hR : ∀ s, R s s) (hA : ∀ t ∈ (p.runOn apply i is s).steps, A t.cmd t.input) :
    Runs apply A R p s (p.runOn apply i is s).steps (p.runOn apply i is s).outcome (p.runOn apply i is s).state := by
  induction p generalizing s is with
  | ret a => exact .ret a s
  | raise e => exact .raise e s
  | act c n ih => exact .act (hR s) (hA _ List.mem_cons_self) (ih _ _ fun t ht => hA t (List.mem_cons_of_mem _ ht))

theorem of_bind {f : α → Prog κ ι σ ε β} {r : Except ε β} (h : Runs apply A R (p.bind f) s steps r s') :
    (∃ a s₁ before after, steps = before ++ after ∧ Runs apply A R p s before (.ok a) s₁ ∧
      Runs apply A R (f a) s₁ after r s') ∨
    ∃ e, r = .error e ∧ Runs apply A R p s steps (.error e) s' := by
  induction p generalizing s steps with
  | ret a => exact .inl ⟨a, s, [], steps, rfl, .ret a s, h⟩
  | raise e =>
    cases h
    exact .inr ⟨e, rfl, .raise e _⟩
  | act c n ih =>
    cases h with
    | act hR hA h =>
      rcases ih _ _ h with ⟨a, s₁, before, after, rfl, hp, hf⟩ | ⟨e, hr, hp⟩
      · exact .inl ⟨a, s₁, _, after, rfl, .act hR hA hp, hf⟩
      · exact .inr ⟨e, hr, .act hR hA hp⟩

/-- A loop whose rounds all end normally: its invariant holds at the end, and each round is a part
of the steps. -/
theorem forEach {f : β → Prog κ ι σ ε Unit} {J : List β → σ → Prop}
    (hf : ∀ b rest s steps r s', J (b :: rest) s → Runs apply A R (f b) s steps r s' → r = .ok () ∧ J rest s')
    {l : List β} {r : Except ε Unit} (hs : J l s) (h : Runs apply A R (Prog.forEach f l) s steps r s') :
    r = .ok () ∧ J [] s' ∧ ∀ b ∈ l, ∃ before part after s₁ s₂, steps = before ++ part ++ after ∧
      Runs apply A R (f b) s₁ part (.ok ()) s₂ := by
  induction l generalizing s steps with
  | nil =>
    cases h
    exact ⟨rfl, hs, fun b hb => absurd hb List.not_mem_nil⟩
  | cons b rest ih =>
    rcases of_bind h with ⟨u, s₁, first, later, rfl, hb, hrest⟩ | ⟨e, -, hb⟩
    · obtain ⟨hr, hJ, hparts⟩ := ih (hf b rest _ _ _ _ hs hb).2 hrest
      refine ⟨hr, hJ, fun b' hb' => ?_⟩
      rcases List.mem_cons.mp hb' with rfl | hb'
      · exact ⟨[], first, later, s, s₁, rfl, hb⟩
      · obtain ⟨before, part, after, s₂, s₃, rfl, hp⟩ := hparts b' hb'
        exact ⟨first ++ before, part, after, s₂, s₃, by simp, hp⟩
    · cases (hf b rest _ _ _ _ hs hb).1

theorem of_issues {C : κ → Prop} {P : α → Prop} {J : σ → Prop} {r : Except ε α} (h : Runs apply A R p s steps r s')
    (hp : Issues (fun _ => True) C P p) (hR : ∀ s s', R s s' → J s → J s')
    (hC : ∀ c i s, C c → A c i → J s → J (apply c i s)) (hs : J s) : J s' := by
  induction h with
  | ret a s => exact hs
  | raise e s => exact hs
  | act hR' hA _ ih => exact ih (hp.2 _ _ trivial) (hC _ _ _ hp.1 hA (hR _ _ hR' hs))

end Runs

namespace Meets
variable {Q Q₁ : Except ε α → Traced κ ι σ → Prop} {Q' : Except ε β → Traced κ ι σ → Prop} {s : Traced κ ι σ}
variable {p : Prog κ ι σ ε α}

theorem sound {before steps : List (Transition κ ι σ)} {s₁ s' : σ} {r : Except ε α}
    (hp : Meets apply A R Q p ⟨before, s₁⟩) (h : Runs apply A R p s₁ steps r s') : Q r ⟨before ++ steps, s'⟩ := by
  induction h generalizing before with
  | ret a s =>
    rw [List.append_nil]
    exact hp
  | raise e s =>
    rw [List.append_nil]
    exact hp
  | act hR hA _ ih => simpa using ih (hp _ _ hR hA)

theorem bind {f : α → Prog κ ι σ ε β} (hp : Meets apply A R Q p s)
    (hok : ∀ a s, Q (.ok a) s → Meets apply A R Q' (f a) s)
    (he : ∀ e s, Q (.error e) s → Q' (.error e) s) : Meets apply A R Q' (p.bind f) s := by
  induction p generalizing s with
  | ret a => exact hok a s hp
  | raise e => exact he e s hp
  | act c n ih => exact fun s₁ i hR hA => ih i s₁ (hp s₁ i hR hA)

theorem handle {h : ε → Prog κ ι σ ε α} (hp : Meets apply A R Q p s) (hok : ∀ a s, Q (.ok a) s → Q₁ (.ok a) s)
    (he : ∀ e s, Q (.error e) s → Meets apply A R Q₁ (h e) s) : Meets apply A R Q₁ (p.handle h) s := by
  induction p generalizing s with
  | ret a => exact hok a s hp
  | raise e => exact he e s hp
  | act c n ih => exact fun s₁ i hR hA => ih i s₁ (hp s₁ i hR hA)

theorem recover {Q' : Except ε' α → Traced κ ι σ → Prop} {h : ε → Prog κ ι σ ε' α}
    (hp : Meets apply A R Q p s) (hok : ∀ a s, Q (.ok a) s → Q' (.ok a) s)
    (he : ∀ e s, Q (.error e) s → Meets apply A R Q' (h e) s) : Meets apply A R Q' (p.recover h) s := by
  induction p generalizing s with
  | ret a => exact hok a s hp
  | raise e => exact he e s hp
  | act c n ih => exact fun s₁ i hR hA => ih i s₁ (hp s₁ i hR hA)

theorem ensure {f : Except ε α → Prog κ ι σ ε Unit} (hp : Meets apply A R Q p s)
    (hf : ∀ r s, Q r s → Meets apply A R (fun closed s => Q₁ (closed.bind fun _ => r) s) (f r) s) :
    Meets apply A R Q₁ (p.ensure f) s := by
  induction p generalizing s with
  | ret a | raise e => exact (hf _ _ hp).bind (fun _ _ h => h) fun _ _ h => h
  | act c n ih => exact fun s₁ i hR hA => ih i s₁ (hp s₁ i hR hA)

end Meets

end AsyncScheduler
