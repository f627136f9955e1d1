import AsyncScheduler.Shared.Interleaving

/-!
# One program of an interleaving

The steps that one running program has taken in an interleaving, and the other way round: a path
that a program can take alone is taken in the middle of any interleaving.
-/

namespace AsyncScheduler
open List

variable {κ ι σ ε α β : Type}

/-- The step that a move is for the `j`-th program. -/
def Sys.ownStep {ρ η : Type} (s : Sys κ ι σ ε) (j : Nat) : Move ρ η ι → List (Transition κ ι σ)
  | .step k i =>
    if k = j then
      match s.procs[j]? with
      | some (.act c _) => [⟨c, i, s.world⟩]
      | _ => []
    else []
  | _ => []

namespace System
variable {ρ η : Type} (S : System κ ι σ ε ρ η)
variable {s : Sys κ ι σ ε} {j : Nat} {c : κ} {n : ι → σ → Prog κ ι σ ε Unit} {p : Prog κ ι σ ε Unit}

/-- The steps of the `j`-th program, oldest first. -/
def stepsOf (j : Nat) : Sys κ ι σ ε → List (Move ρ η ι) → List (Transition κ ι σ)
  | _, [] => []
  | s, m :: ms => s.ownStep j m ++ stepsOf j (S.move s m) ms

variable {S}

theorem stepsOf_append (j : Nat) (s : Sys κ ι σ ε) (ms ms' : List (Move ρ η ι)) :
    S.stepsOf j s (ms ++ ms') = S.stepsOf j s ms ++ S.stepsOf j (S.run s ms) ms' := by
  induction ms generalizing s with
  | nil => rfl
  | cons m ms ih =>
    rw [cons_append, stepsOf, stepsOf, ih, append_assoc]
    rfl

theorem move_of_act (hp : s.procs[j]? = some (.act c n)) (i : ι) :
    S.move s (.step j i) = ⟨S.apply c i s.world, s.procs.set j (n i s.world), ⟨c, i, s.world⟩ :: s.trace⟩ := by
  simp only [move, hp]

theorem ownStep_of_act
    (hp : s.procs[j]? = some (.act c n)) (i : ι) : s.ownStep j (.step j i : Move ρ η ι) = [⟨c, i, s.world⟩] := by
  simp only [Sys.ownStep, if_pos, hp]

theorem own_or_not (j : Nat) (hp : s.procs[j]? = some p) (m : Move ρ η ι) :
    (s.ownStep j m = [] ∧ (S.move s m).procs[j]? = some p) ∨ ∃ c n i, p = .act c n ∧ m = .step j i := by
  cases m with
  | start r =>
    refine .inl ⟨rfl, ?_⟩
    rw [move, List.getElem?_append_left (List.getElem?_eq_some_iff.mp hp).1]
    exact hp
  | env e i => exact .inl ⟨rfl, hp⟩
  | step k i =>
    by_cases hk : k = j
    · subst hk
      cases p with
      | act c n => exact .inr ⟨c, n, i, rfl, rfl⟩
      | ret a | raise e => exact .inl ⟨by simp only [Sys.ownStep, if_pos, hp], by simp only [move, hp]⟩
    · refine .inl ⟨by simp only [Sys.ownStep, if_neg hk], ?_⟩
      rcases move_step_cases (S := S) s k i with hs | ⟨c, n, -, hm⟩
      · rw [hs]
        exact hp
      · rw [hm]
        dsimp only
        rw [List.getElem?_set_ne hk]
        exact hp

theorem steps_stepsOf (ms : List (Move ρ η ι)) (hp : s.procs[j]? = some p) :
    ∃ q, (S.run s ms).procs[j]? = some q ∧ Steps p (S.stepsOf j s ms) q := by
  induction ms generalizing s p with
  | nil => exact ⟨p, hp, .refl p⟩
  | cons m ms ih =>
    rcases own_or_not j hp m with ⟨hno, hs⟩ | ⟨c, n, i, rfl, rfl⟩
    · rw [stepsOf, hno, nil_append]
      exact ih hs
    · have hn : (S.move s (.step j i)).procs[j]? = some (n i s.world) := by
        rw [move_of_act hp i]
        exact List.getElem?_set_self (List.getElem?_eq_some_iff.mp hp).1
      obtain ⟨q, hq, hst⟩ := ih hn
      refine ⟨q, hq, ?_⟩
      rw [stepsOf, ownStep_of_act hp i]
      exact .cons i s.world hst

theorem run_env (s : Sys κ ι σ ε) (ms : List (Move ρ η ι)) (e : η) (i : ι) :
    (S.run s (ms ++ [.env e i])).world = S.apply (S.ambient e) i (S.run s ms).world ∧
      (S.run s (ms ++ [.env e i])).procs = (S.run s ms).procs ∧
      (S.run s (ms ++ [.env e i])).trace = ⟨S.ambient e, i, (S.run s ms).world⟩ :: (S.run s ms).trace ∧
      ∀ j, S.stepsOf j s (ms ++ [.env e i]) = S.stepsOf j s ms := by
  rw [run_append]
  refine ⟨rfl, rfl, rfl, fun j => ?_⟩
  rw [stepsOf_append]
  exact append_nil _

theorem length_procs_run [IsEmpty ρ] (ms : List (Move ρ η ι)) (s : Sys κ ι σ ε) :
    (S.run s ms).procs.length = s.procs.length := by
  induction ms generalizing s with
  | nil => rfl
  | cons m ms ih =>
    refine (ih (S.move s m)).trans ?_
    cases m with
    | start r => exact isEmptyElim r
    | env e i => rfl
    | step j i =>
      rcases move_step_cases (S := S) s j i with h | ⟨c, n, -, h⟩
      · rw [h]
      · rw [h, length_set]

theorem mem_stepsOf {ms : List (Move ρ η ι)} {t : Transition κ ι σ} (h : t ∈ S.stepsOf j s ms) :
    ∃ before i after, ms = before ++ .step j i :: after ∧ t.pre = (S.run s before).world ∧
      (S.run s (before ++ [.step j i])).world = S.apply t.cmd t.input t.pre ∧
      S.stepsOf j s (before ++ [.step j i]) = S.stepsOf j s before ++ [t] := by
  induction ms generalizing s with
  | nil => cases h
  | cons m ms ih =>
    rcases mem_append.mp h with ho | hl
    · cases m with
      | start r => cases ho
      | env e i => cases ho
      | step k i =>
        rw [Sys.ownStep] at ho
        split at ho
        · rename_i hk
          subst hk
          split at ho
          · rename_i c n ha
            obtain rfl := mem_singleton.mp ho
            refine ⟨[], i, ms, rfl, rfl, congrArg Sys.world (move_of_act (S := S) ha i), ?_⟩
            change s.ownStep k (.step k i) ++ [] = _
            rw [ownStep_of_act ha]
            rfl
          · cases ho
        · cases ho
    · obtain ⟨before, i, after, rfl, hpr, hp, hs⟩ := ih hl
      refine ⟨m :: before, i, after, rfl, hpr, hp, ?_⟩
      rw [cons_append, stepsOf, hs, stepsOf, append_assoc]

end System

theorem Steps.void {p : Prog κ ι σ ε α} {q : Prog κ ι σ ε Unit} {steps : List (Transition κ ι σ)}
    (h : Steps p.void steps q) : ∃ p', Steps p steps p' := by
  rcases h.bind with hp | ⟨a, first, rest, hf, hr, rfl⟩
  · exact hp
  · rw [hr.of_ret, append_nil]
    exact ⟨_, hf⟩

/-- No command of `T` is issued after one of `P`. -/
def NeverAfter (P T : κ → Prop) : Prog κ ι σ ε α → Prop
  | .ret _ => True
  | .raise _ => True
  | .act c n => (P c → ∀ i s, Issues (fun _ => True) (fun c => ¬ T c) (fun _ => True) (n i s)) ∧
    ∀ i s, NeverAfter P T (n i s)

/-- A command of `P` is the last one. -/
def OnlyLast (P : κ → Prop) : Prog κ ι σ ε α → Prop
  | .ret _ => True
  | .raise _ => True
  | .act c n => ∀ i s, OnlyLast P (n i s) ∧ (P c → (∃ a, n i s = .ret a) ∨ ∃ e, n i s = .raise e)

namespace NeverAfter
variable {P T : κ → Prop}
variable {p : Prog κ ι σ ε α} {Q : α → Prop} {γ : Type} {main : Prog κ ι σ ε α}

theorem of_issues (hp : Issues (fun _ => True) (fun c => ¬ T c) Q p) : NeverAfter P T p := by
  induction p with
  | ret a => trivial
  | raise e => trivial
  | act c n ih => exact ⟨fun _ i s => (hp.2 i s trivial).weaken fun _ _ => trivial, fun i s => ih i s (hp.2 i s trivial)⟩

theorem bind_of_issues {f : α → Prog κ ι σ ε β}
    (hp : Issues (fun _ => True) (fun c => ¬ P c) Q p) (hf : ∀ a, Q a → NeverAfter P T (f a)) :
    NeverAfter P T (p.bind f) := by
  induction p with
  | ret a => exact hf a hp
  | raise e => trivial
  | act c n ih => exact ⟨fun hc => absurd hc hp.1, fun i s => ih i s (hp.2 i s trivial)⟩

theorem steps {q : Prog κ ι σ ε α} {before after : List (Transition κ ι σ)} {t : Transition κ ι σ}
    (hp : NeverAfter P T p) (h : Steps p (before ++ t :: after) q) (hb : ∃ u ∈ before, P u.cmd) : ¬ T t.cmd := by
  induction before generalizing p with
  | nil =>
    obtain ⟨u, hu, -⟩ := hb
    cases hu
  | cons u before ih =>
    cases h with
    | cons i s h =>
      obtain ⟨u', hu', hP⟩ := hb
      rcases mem_cons.mp hu' with rfl | hu'
      · exact h.of_issues (hp.1 hP i s) t (by simp)
      · exact ih (hp.2 i s) h ⟨u', hu', hP⟩

theorem settle {f : Except ε α → Prog κ ι σ ε γ} (hm : OnlyLast P main)
    (hf : ∀ r, Issues (fun _ => True) (fun c => ¬ T c) (fun _ => True) (f r)) :
    NeverAfter P T ((main.settle fun _ => none).bind f) := by
  induction main with
  | ret a | raise e => exact of_issues (hf _)
  | act c n ih =>
    refine ⟨fun hc i s => ?_, fun i s => ih i s (hm i s).1⟩
    rcases (hm i s).2 hc with ⟨a, ha⟩ | ⟨e, he⟩
    · change Issues _ _ _ (((n i s).settle fun _ => none).bind f)
      rw [ha]
      exact hf _
    · change Issues _ _ _ (((n i s).settle fun _ => none).bind f)
      rw [he]
      exact hf _

/-- When the main program ends with its command of `P`, the background has no turn after it. -/
theorem withBackground {bg : Prog κ ι σ ε β} {f : Except ε α × Prog κ ι σ ε β → Prog κ ι σ ε γ}
    (hbg : Issues (fun _ => True) (fun c => ¬ P c) (fun _ => True) bg) (hm : OnlyLast P main)
    (hf : ∀ r, Issues (fun _ => True) (fun c => ¬ T c) (fun _ => True) (f r)) (sched : List Bool) :
    NeverAfter P T ((Prog.withBackground sched bg main).bind f) := by
  have he (sched : List Bool) (bg : Prog κ ι σ ε β) (main : Prog κ ι σ ε α)
      (h : (∃ a, main = .ret a) ∨ ∃ e, main = .raise e) :
      Issues (fun _ => True) (fun c => ¬ T c) (fun _ => True) ((Prog.withBackground sched bg main).bind f) := by
    rcases h with ⟨a, rfl⟩ | ⟨e, rfl⟩ <;> cases sched <;> exact hf _
  induction sched generalizing bg main with
  | nil =>
    have hn : (Prog.withBackground [] bg main).bind f =
        (main.settle fun _ => none).bind fun r => f (r, bg) := Prog.bind_assoc ..
    rw [hn]
    exact settle hm fun r => hf (r, bg)
  | cons b sched ih =>
    cases main with
    | ret a => exact of_issues (he _ _ _ (.inl ⟨a, rfl⟩))
    | raise e => exact of_issues (he _ _ _ (.inr ⟨e, rfl⟩))
    | act c n =>
      unfold Prog.withBackground
      dsimp only
      split
      · exact ⟨fun hc => absurd hc hbg.1, fun i s => ih (hbg.2 i s trivial) hm⟩
      · exact ⟨fun hc i s => he _ _ _ ((hm i s).2 hc), fun i s => ih hbg (hm i s).1⟩

end NeverAfter

/-- `p` alone goes from one state to another by these steps, and becomes `q`. -/
inductive Path (apply : κ → ι → σ → σ) : Prog κ ι σ ε α → σ → List (Transition κ ι σ) → Prog κ ι σ ε α → σ → Prop
  | refl (p : Prog κ ι σ ε α) (s : σ) : Path apply p s [] p s
  | cons {c : κ} {n : ι → σ → Prog κ ι σ ε α} {s s' : σ} {steps : List (Transition κ ι σ)} {q : Prog κ ι σ ε α}
    (i : ι) : Path apply (n i s) (apply c i s) steps q s' → Path apply (.act c n) s (⟨c, i, s⟩ :: steps) q s'

namespace Path
variable {apply : κ → ι → σ → σ} {p q r : Prog κ ι σ ε α} {s s₁ s' : σ} {steps steps' : List (Transition κ ι σ)}
variable {a : α} {i : ι} {p : Prog κ ι σ ε α}

theorem of_runWith (h : p.runWith apply i s = (.ok a, s')) :
    Path apply p s (p.transitions apply i s) (.ret a) s' := by
  induction p generalizing s with
  | ret b =>
    cases h
    exact .refl _ _
  | raise e => cases h
  | act c n ih => exact .cons i (ih i s h)

theorem of_runOn {is : List ι} {e : ε} (h : (p.runOn apply i is s).outcome = .error e) :
    Path apply p s (p.runOn apply i is s).steps (.raise e) (p.runOn apply i is s).state := by
  induction p generalizing s is with
  | ret b => cases h
  | raise e' =>
    cases h
    exact .refl _ _
  | act c n ih => exact .cons _ (ih _ _ h)

theorem toSteps (h : Path apply p s steps q s') : Steps p steps q := by
  induction h with
  | refl p s => exact .refl p
  | cons i _ ih => exact .cons i _ ih

theorem pre_head (h : Path apply p s steps q s') : ∀ t ∈ steps.head?, t.pre = s := by
  intro t ht
  cases h with
  | refl => cases ht
  | cons i h =>
    cases ht
    rfl

theorem trans (h : Path apply p s steps q s₁) (h' : Path apply q s₁ steps' r s') :
    Path apply p s (steps ++ steps') r s' := by
  induction h with
  | refl p s => exact h'
  | cons i _ ih => exact .cons i (ih h')

theorem bind_left (f : α → Prog κ ι σ ε β) (h : Path apply p s steps q s') :
    Path apply (p.bind f) s steps (q.bind f) s' := by
  induction h with
  | refl p s => exact .refl _ _
  | cons i _ ih => exact .cons i ih

theorem void (h : Path apply p s steps (.ret a) s') : Path apply p.void s steps (.ret ()) s' :=
  h.bind_left fun _ => .ret ()

theorem handle_left (f : ε → Prog κ ι σ ε α) (h : Path apply p s steps q s') :
    Path apply (p.handle f) s steps (q.handle f) s' := by
  induction h with
  | refl p s => exact .refl _ _
  | cons i _ ih => exact .cons i ih

theorem ensure_left (f : Except ε α → Prog κ ι σ ε Unit) (h : Path apply p s steps q s') :
    Path apply (p.ensure f) s steps (q.ensure f) s' := by
  induction h with
  | refl p s => exact .refl _ _
  | cons i _ ih => exact .cons i ih

theorem bind {f : α → Prog κ ι σ ε β} {q : Prog κ ι σ ε β} (h : Path apply p s steps (.ret a) s₁)
    (h' : Path apply (f a) s₁ steps' q s') : Path apply (p.bind f) s (steps ++ steps') q s' :=
  (h.bind_left f).trans h'

theorem handle (f : ε → Prog κ ι σ ε α) (h : Path apply p s steps (.ret a) s') :
    Path apply (p.handle f) s steps (.ret a) s' := h.handle_left f

theorem settle (h : Path apply p s steps q s') :
    Path apply (p.settle fun _ => none) s steps (q.settle fun _ => none) s' := by
  induction h with
  | refl p s => exact .refl _ _
  | cons i _ ih => exact .cons i ih

theorem main (bg : Prog κ ι σ ε β) (sched : List Bool) (h : Path apply p s steps q s') :
    Path apply (Prog.withBackground (List.replicate steps.length false ++ sched) bg p) s steps
      (Prog.withBackground sched bg q) s' := by
  induction h with
  | refl p s => exact .refl _ _
  | cons i _ ih => exact .cons i ih

theorem background {bg bg' : Prog κ ι σ ε β} (c : κ) (n : ι → σ → Prog κ ι σ ε α) (sched : List Bool)
    (h : Path apply bg s steps bg' s') :
    Path apply (Prog.withBackground (List.replicate steps.length true ++ sched) bg (.act c n)) s steps
      (Prog.withBackground sched bg' (.act c n)) s' := by
  induction h with
  | refl p s => exact .refl _ _
  | cons i _ ih => exact .cons i ih

/-- The path is taken in the middle of an interleaving, by moves of that program alone. -/
theorem exists_run {ρ η : Type} (S : System κ ι σ ε ρ η) {p q : Prog κ ι σ ε Unit} (h : Path S.apply p s steps q s')
    (j : Nat) {z : Sys κ ι σ ε} (hw : z.world = s) (hp : z.procs[j]? = some p) :
    ∃ ms, (∀ m ∈ ms, ∃ i, m = .step j i) ∧ (S.run z ms).world = s' ∧ (S.run z ms).procs = z.procs.set j q ∧ (S.run z ms).trace = steps.reverse ++ z.trace ∧
      S.stepsOf j z ms = steps ∧ ∀ k ≠ j, S.stepsOf k z ms = [] := by
  induction h generalizing z with
  | refl p s =>
    obtain ⟨hj, hget⟩ := List.getElem?_eq_some_iff.mp hp
    exact ⟨[], by simp, hw, by simp [System.run, ← hget], rfl, rfl, fun _ _ => rfl⟩
  | @cons c n s s' steps q i _ ih =>
    have hm := System.move_of_act (S := S) hp i
    have hn : (S.move z (.step j i)).procs[j]? = some (n i s) := by
      rw [hm, hw]
      exact List.getElem?_set_self (List.getElem?_eq_some_iff.mp hp).1
    have hw' : (S.move z (.step j i)).world = S.apply c i s := by rw [hm, hw]
    obtain ⟨ms, hmo, he, hpr, ht, how, ho⟩ := ih hw' hn
    refine ⟨.step j i :: ms, forall_mem_cons.mpr ⟨⟨i, rfl⟩, hmo⟩, he, hpr.trans ?_, ht.trans ?_, ?_, fun k hk => ?_⟩
    · rw [hm]
      exact set_set ..
    · rw [hm, hw, reverse_cons, append_assoc]
      rfl
    · rw [System.stepsOf, System.ownStep_of_act hp i, how, hw]
      rfl
    · rw [System.stepsOf, ho k hk, Sys.ownStep, if_neg (Ne.symm hk)]
      rfl

end Path

end AsyncScheduler
