import AsyncScheduler.Shared.Program

/-!
# Interleavings of programs

`Issues I C Q p` says which commands a program can issue (`C`) and which values it can return (`Q`),
when every state it observes satisfies `I`.
-/

namespace AsyncScheduler
open List

variable {κ ι σ τ ε α β γ : Type}

def Issues (I : σ → Prop) (C : κ → Prop) (Q : α → Prop) : Prog κ ι σ ε α → Prop
  | .ret a => Q a
  | .raise _ => True
  | .act c n => C c ∧ ∀ i s, I s → Issues I C Q (n i s)

namespace Issues
variable {I : σ → Prop} {C : κ → Prop} {Q : α → Prop} {R : β → Prop}
variable {p : Prog κ ι σ ε α} {stop : ι → Option ε} {Q' : α → Prop} {ps : List (Prog κ ι σ ε α)} {s : σ}
  {apply : κ → ι → σ → σ} {i : ι}

theorem mono {C' : κ → Prop} (hC : ∀ c, C c → C' c)
    (hQ : ∀ a, Q a → Q' a) (h : Issues I C Q p) : Issues I C' Q' p := by
  induction p with
  | ret a => exact hQ a h
  | raise e => trivial
  | act c n ih => exact ⟨hC c h.1, fun i s hs => ih i s (h.2 i s hs)⟩

theorem top (p : Prog κ ι σ ε α) : Issues (fun _ => True) (fun _ => True) (fun _ => True) p := by
  induction p with
  | ret a => trivial
  | raise e => trivial
  | act c n ih => exact ⟨trivial, fun i s _ => ih i s⟩

theorem weaken (hQ : ∀ a, Q a → Q' a) (h : Issues I C Q p) : Issues I C Q' p := h.mono (fun _ hc => hc) hQ

theorem bind {f : α → Prog κ ι σ ε β} (hp : Issues I C Q p)
    (hf : ∀ a, Q a → Issues I C R (f a)) : Issues I C R (p.bind f) := by
  induction p with
  | ret a => exact hf a hp
  | raise e => trivial
  | act c n ih => exact ⟨hp.1, fun i s hs => ih i s (hp.2 i s hs)⟩

theorem handle {h : ε → Prog κ ι σ ε α} (hp : Issues I C Q p)
    (hh : ∀ e, Issues I C Q (h e)) : Issues I C Q (p.handle h) := by
  induction p with
  | ret a => exact hp
  | raise e => exact hh e
  | act c n ih => exact ⟨hp.1, fun i s hs => ih i s (hp.2 i s hs)⟩

theorem ensure {f : Except ε α → Prog κ ι σ ε Unit} (hp : Issues I C Q p)
    (hok : ∀ a, Q a → Issues I C (fun _ => True) (f (.ok a)))
    (he : ∀ e, Issues I C (fun _ => True) (f (.error e))) : Issues I C Q (p.ensure f) := by
  induction p with
  | ret a => exact (hok a hp).bind fun _ _ => hp
  | raise e => exact (he e).bind fun _ _ => trivial
  | act c n ih => exact ⟨hp.1, fun i s hs => ih i s (hp.2 i s hs)⟩

theorem void (hp : Issues I C Q p) : Issues I C (fun _ => True) p.void :=
  hp.bind fun _ _ => trivial

theorem forEach {f : β → Prog κ ι σ ε Unit} {l : List β} (hf : ∀ b ∈ l, Issues I C (fun _ => True) (f b)) :
    Issues I C (fun _ => True) (Prog.forEach f l) := by
  induction l with
  | nil => trivial
  | cons b l ih =>
    exact (hf b mem_cons_self).bind fun _ _ =>
      ih fun b' hb' => hf b' (mem_cons_of_mem _ hb')

def Settled (Q : α → Prop) : Except ε α → Prop
  | .ok a => Q a
  | .error _ => True

theorem settle (hp : Issues I C Q p) : Issues I C (Settled Q) (p.settle stop) := by
  induction p with
  | ret a => exact hp
  | raise e => trivial
  | act c n ih =>
    refine ⟨hp.1, fun i s hs => ?_⟩
    dsimp only
    split
    · trivial
    · exact ih i s (hp.2 i s hs)

theorem settleAll (hps : ∀ p ∈ ps, Issues I C Q p) :
    Issues I C (fun rs => ∀ r ∈ rs, Settled Q r) (Prog.settleAll stop ps) := by
  induction ps with
  | nil => exact fun r hr => absurd hr not_mem_nil
  | cons p ps ih =>
    refine (hps p mem_cons_self).settle.bind fun r hr => ?_
    refine (ih fun q hq => hps q (mem_cons_of_mem _ hq)).bind fun rs hrs => ?_
    exact forall_mem_cons.mpr ⟨hr, hrs⟩

theorem gather {sched : List Nat} (hps : ∀ p ∈ ps, Issues I C Q p) :
    Issues I C (fun rs => ∀ r ∈ rs, Settled Q r) (Prog.gather stop sched ps) := by
  induction sched generalizing ps with
  | nil => exact settleAll hps
  | cons j sched ih =>
    unfold Prog.gather
    split
    · rename_i c n hj
      have ha := hps _ (mem_of_getElem? hj)
      refine ⟨ha.1, fun i s hs => ?_⟩
      dsimp only
      split
      · trivial
      · refine ih fun p hp => ?_
        rcases mem_or_eq_of_mem_set hp with hp | rfl
        · exact hps p hp
        · exact ha.2 i s hs
    · exact ih hps

theorem withBackground {sched : List Bool} {bg : Prog κ ι σ ε β} {main : Prog κ ι σ ε α}
    (hbg : Issues I C R bg) (hm : Issues I C Q main) :
    Issues I C (fun r => Settled Q r.1 ∧ Issues I C R r.2) (Prog.withBackground sched bg main) := by
  induction sched generalizing bg main with
  | nil => exact hm.settle.bind fun r hr => ⟨hr, hbg⟩
  | cons b sched ih =>
    unfold Prog.withBackground
    cases main with
    | ret a => exact ⟨hm, hbg⟩
    | raise e => exact ⟨trivial, hbg⟩
    | act c n =>
      dsimp only
      split
      · exact ⟨hbg.1, fun i s hs => ih (hbg.2 i s hs) hm⟩
      · exact ⟨hm.1, fun i s hs => ih hbg (hm.2 i s hs)⟩

theorem runLocal {step : τ → ι → γ → γ} {c : κ} {s : γ} {p : Prog τ ι γ ε α} (hc : C c) :
    Issues I C (fun _ => True) (Prog.runLocal step c s p) := by
  induction p generalizing s with
  | ret a => trivial
  | raise e => trivial
  | act d n ih => exact ⟨hc, fun i _ _ => ih i s⟩

theorem self (hp : Issues I C Q p) : Issues I C p.Yields p := by
  induction p with
  | ret a => exact .ret a
  | raise e => trivial
  | act c n ih => exact ⟨hp.1, fun i s hs => (ih i s (hp.2 i s hs)).weaken fun a ha => .act i s ha⟩

theorem yields {a : α} (ha : p.Yields a) (hp : Issues (fun _ => True) (fun _ => True) Q p) : Q a := by
  induction ha with
  | ret a => exact hp
  | act i s _ ih => exact ih (hp.2 i s trivial)

theorem runWith (hC : ∀ c s, C c → I s → I (apply c i s)) (hp : Issues I C Q p) (hs : I s) :
    I (p.runWith apply i s).2 ∧ ∀ a, (p.runWith apply i s).1 = .ok a → Q a := by
  induction p generalizing s with
  | ret a =>
    refine ⟨hs, fun b hb => ?_⟩
    cases hb
    exact hp
  | raise e => exact ⟨hs, fun b hb => nomatch hb⟩
  | act c n ih => exact ih i s (hp.2 i s hs) (hC c s hp.1 hs)

theorem of_mem_transitions
    {t : Transition κ ι σ} (hp : Issues (fun _ => True) C Q p) (ht : t ∈ p.transitions apply i s) : C t.cmd := by
  induction p generalizing s with
  | ret a => cases ht
  | raise e => cases ht
  | act c n ih =>
    rcases mem_cons.mp ht with rfl | ht
    · exact hp.1
    · exact ih i s (hp.2 i s trivial) ht

end Issues

/-- `p` issues the commands of `steps` and becomes `q`. Each command finds the state that the
others have left, so nothing ties one state to the next. -/
inductive Steps : Prog κ ι σ ε α → List (Transition κ ι σ) → Prog κ ι σ ε α → Prop
  | refl (p : Prog κ ι σ ε α) : Steps p [] p
  | cons {c : κ} {n : ι → σ → Prog κ ι σ ε α} {steps : List (Transition κ ι σ)} {q : Prog κ ι σ ε α}
    (i : ι) (s : σ) : Steps (n i s) steps q → Steps (.act c n) (⟨c, i, s⟩ :: steps) q

namespace Steps
variable {p q : Prog κ ι σ ε α} {steps : List (Transition κ ι σ)}
variable {a : α} {f : α → Prog κ ι σ ε β} {C : κ → Prop} {Q : α → Prop}

theorem of_ret (h : Steps (.ret a) steps q) : steps = [] := by
  cases h with
  | refl => rfl

theorem of_raise {e : ε} (h : Steps (.raise e) steps q) : steps = [] := by
  cases h with
  | refl => rfl

/-- A sequence stands in its first part, or has ended it and stands in its second. -/
theorem bind {q : Prog κ ι σ ε β} (h : Steps (p.bind f) steps q) : (∃ p', Steps p steps p') ∨
      ∃ a first rest, Steps p first (.ret a) ∧ Steps (f a) rest q ∧ steps = first ++ rest := by
  induction p generalizing steps with
  | ret a => exact .inr ⟨a, [], steps, .refl _, h, rfl⟩
  | raise e =>
    rw [of_raise h]
    exact .inl ⟨_, .refl _⟩
  | act c n ih =>
    cases h with
    | refl => exact .inl ⟨_, .refl _⟩
    | cons i s h =>
      rcases ih i s h with ⟨p', hp'⟩ | ⟨a, first, rest, hf, hr, rfl⟩
      · exact .inl ⟨p', .cons i s hp'⟩
      · exact .inr ⟨a, _ :: first, rest, .cons i s hf, hr, rfl⟩

theorem trans {r : Prog κ ι σ ε α} {steps' : List (Transition κ ι σ)} (h : Steps p steps q) (h' : Steps q steps' r) :
    Steps p (steps ++ steps') r := by
  induction h with
  | refl p => exact h'
  | cons i s _ ih => exact .cons i s (ih h')

theorem bind_ret {b : β} (h : Steps (p.bind f) steps (.ret b)) :
    ∃ a first rest, Steps p first (.ret a) ∧ Steps (f a) rest (.ret b) ∧ steps = first ++ rest := by
  induction p generalizing steps with
  | ret a => exact ⟨a, [], steps, .refl _, h, rfl⟩
  | raise e => cases h
  | act c n ih =>
    cases h with
    | cons i s hr =>
      obtain ⟨a, first, rest, hf, hs, rfl⟩ := ih i s hr
      exact ⟨a, _, rest, .cons i s hf, hs, rfl⟩

theorem of_issues (hp : Issues (fun _ => True) C Q p) (h : Steps p steps q) : ∀ t ∈ steps, C t.cmd := by
  induction h with
  | refl p => exact fun t ht => absurd ht not_mem_nil
  | cons i s _ ih => exact forall_mem_cons.mpr ⟨hp.1, ih (hp.2 i s trivial)⟩

theorem returned (hp : Issues (fun _ => True) C Q p) (h : Steps p steps (.ret a)) : Q a := by
  generalize hq : Prog.ret a = q at h
  induction h with
  | refl p =>
    subst hq
    exact hp
  | cons i s _ ih => exact ih (hp.2 i s trivial) hq

end Steps

theorem eq_around {l : List α} (n : Nat) (h : n < l.length) : l = l.take n ++ l.get ⟨n, h⟩ :: l.drop (n + 1) := by
  simp

structure Sys (κ ι σ ε : Type) where
  world : σ
  procs : List (Prog κ ι σ ε Unit)
  /-- Everything that was issued, newest first. -/
  trace : List (Transition κ ι σ)

/-- How commands act, the program that serves each request, and what the environment does. -/
structure System (κ ι σ ε ρ η : Type) where
  apply : κ → ι → σ → σ
  program : ρ → Prog κ ι σ ε Unit
  ambient : η → κ

inductive Move (ρ η ι : Type) where
  | start (r : ρ)
  | step (j : Nat) (i : ι)
  | env (e : η) (i : ι)

def Sys.init (w : σ) : Sys κ ι σ ε := ⟨w, [], []⟩

namespace System
variable {ρ η : Type} (S : System κ ι σ ε ρ η)
variable {s : Sys κ ι σ ε} {J : List (Transition κ ι σ) → σ → Prop} {I : σ → Prop} {C : κ → Prop}
  {ms : List (Move ρ η ι)}

def move (s : Sys κ ι σ ε) : Move ρ η ι → Sys κ ι σ ε
  | .start r => { s with procs := s.procs ++ [S.program r] }
  | .step j i =>
    match s.procs[j]? with
    | some (.act c n) =>
      ⟨S.apply c i s.world, s.procs.set j (n i s.world), ⟨c, i, s.world⟩ :: s.trace⟩
    | _ => s
  | .env e i => ⟨S.apply (S.ambient e) i s.world, s.procs, ⟨S.ambient e, i, s.world⟩ :: s.trace⟩

def run (s : Sys κ ι σ ε) (ms : List (Move ρ η ι)) : Sys κ ι σ ε := ms.foldl S.move s

variable {S}

theorem move_step_cases (s : Sys κ ι σ ε) (j : Nat) (i : ι) :
    S.move s (.step j i) = s ∨ ∃ c n, Prog.act c n ∈ s.procs ∧ S.move s (.step j i) =
      ⟨S.apply c i s.world, s.procs.set j (n i s.world), ⟨c, i, s.world⟩ :: s.trace⟩ := by
  cases hj : s.procs[j]? with
  | none => exact .inl (by simp [move, hj])
  | some p =>
    cases p with
    | ret a | raise e => exact .inl (by simp [move, hj])
    | act c n => exact .inr ⟨c, n, mem_of_getElem? hj, by simp [move, hj]⟩

section
variable (hI : ∀ tr w, J tr w → I w) (hJ : ∀ tr w c i, C c → J tr w → J (⟨c, i, w⟩ :: tr) (S.apply c i w))
include hI hJ

/-- A property of the trace and the state that every allowed command keeps holds in
every interleaving of programs that issue only allowed commands. -/
theorem run_invariant_of_moves (hpr : ∀ r, Move.start r ∈ ms → Issues I C (fun _ => True) (S.program r))
    (ha : ∀ e i, Move.env e i ∈ ms → C (S.ambient e))
    (hp : ∀ p ∈ s.procs, Issues I C (fun _ => True) p) (hs : J s.trace s.world) :
    J (S.run s ms).trace (S.run s ms).world ∧ ∀ p ∈ (S.run s ms).procs, Issues I C (fun _ => True) p := by
  induction ms generalizing s with
  | nil => exact ⟨hs, hp⟩
  | cons m ms ih =>
    have hl : ∀ r, Move.start r ∈ ms → Issues I C (fun _ => True) (S.program r) :=
      fun r hr => hpr r (mem_cons_of_mem _ hr)
    have ho : ∀ e i, Move.env e i ∈ ms → C (S.ambient e) :=
      fun e i he => ha e i (mem_cons_of_mem _ he)
    change J (S.run (S.move s m) ms).trace (S.run (S.move s m) ms).world ∧
      ∀ p ∈ (S.run (S.move s m) ms).procs, Issues I C (fun _ => True) p
    cases m with
    | start r =>
      refine ih hl ho (s := S.move s (.start r)) ?_ hs
      intro q hq
      rcases mem_append.mp hq with hq | hq
      · exact hp q hq
      · rw [mem_singleton.mp hq]
        exact hpr r mem_cons_self
    | env e i =>
      exact ih hl ho (s := S.move s (.env e i)) hp (hJ _ _ _ i (ha e i mem_cons_self) hs)
    | step j i =>
      rcases move_step_cases (S := S) s j i with hm | ⟨c, n, hac, hm⟩
      · rw [hm]
        exact ih hl ho hp hs
      · rw [hm]
        have hi := hp _ hac
        refine ih hl ho ?_ (hJ _ _ c i hi.1 hs)
        intro q hq
        rcases mem_or_eq_of_mem_set hq with hq | rfl
        · exact hp q hq
        · exact hi.2 i _ (hI _ _ hs)

theorem run_invariant (hpr : ∀ r, Issues I C (fun _ => True) (S.program r)) (ha : ∀ e, C (S.ambient e))
    (hp : ∀ p ∈ s.procs, Issues I C (fun _ => True) p) (hs : J s.trace s.world) (ms : List (Move ρ η ι)) :
    J (S.run s ms).trace (S.run s ms).world :=
  (run_invariant_of_moves hI hJ (fun r _ => hpr r) (fun e _ _ => ha e) hp hs).1

end

theorem run_keeps (hJ : ∀ tr w c i, J tr w → J (⟨c, i, w⟩ :: tr) (S.apply c i w)) {w : σ} (hw : J [] w)
    (ms : List (Move ρ η ι)) : J (S.run (Sys.init w) ms).trace (S.run (Sys.init w) ms).world :=
  run_invariant (I := fun _ => True) (C := fun _ => True) (fun _ _ _ => trivial)
    (fun tr w c i _ h => hJ tr w c i h) (fun _ => Issues.top _) (fun _ => trivial)
    (s := Sys.init w) (fun _ hp => absurd hp not_mem_nil) hw ms

theorem run_append (s : Sys κ ι σ ε) (ms ms' : List (Move ρ η ι)) :
    S.run s (ms ++ ms') = S.run (S.run s ms) ms' := foldl_append

/-- Every step of a run was issued in a state the run passes through, by one of its programs or by
the environment. -/
theorem mem_trace {t : Transition κ ι σ} (h : t ∈ (S.run s ms).trace) :
    t ∈ s.trace ∨ ∃ before m after, ms = before ++ m :: after ∧ (S.run s before).world = t.pre ∧
      ((∃ n, Prog.act t.cmd n ∈ (S.run s before).procs) ∨ ∃ e i, m = .env e i ∧ t.cmd = S.ambient e) := by
  induction ms generalizing s with
  | nil => exact .inl h
  | cons m ms ih =>
    have hf : t ∈ (S.move s m).trace → t ∈ s.trace ∨ (s.world = t.pre ∧
        ((∃ n, Prog.act t.cmd n ∈ s.procs) ∨ ∃ e i, m = .env e i ∧ t.cmd = S.ambient e)) := by
      intro ht
      cases m with
      | start r => exact .inl ht
      | env e i =>
        rcases mem_cons.mp ht with rfl | ht
        · exact .inr ⟨rfl, .inr ⟨e, i, rfl, rfl⟩⟩
        · exact .inl ht
      | step j i =>
        rcases move_step_cases (S := S) s j i with hm | ⟨c, n, ha, hm⟩
        · rw [hm] at ht
          exact .inl ht
        · rw [hm] at ht
          rcases mem_cons.mp ht with rfl | ht
          · exact .inr ⟨rfl, .inl ⟨n, ha⟩⟩
          · exact .inl ht
    rcases ih (s := S.move s m) h with ht | ⟨before, m', after, rfl, hi⟩
    · exact (hf ht).imp_right fun hi => ⟨[], m, ms, rfl, hi⟩
    · exact .inr ⟨m :: before, m', after, rfl, hi⟩

theorem run_alone (i : ι) (p : Prog κ ι σ ε Unit) (ps qs : List (Prog κ ι σ ε Unit)) (w : σ)
    (tr : List (Transition κ ι σ)) :
    ∃ n q, ((∃ a, q = .ret a) ∨ ∃ e, q = .raise e) ∧
      S.run ⟨w, ps ++ p :: qs, tr⟩ (List.replicate n (.step ps.length i)) =
        ⟨(p.runWith S.apply i w).2, ps ++ q :: qs, (p.transitions S.apply i w).reverse ++ tr⟩ := by
  induction p generalizing w tr with
  | ret a => exact ⟨0, .ret a, .inl ⟨a, rfl⟩, rfl⟩
  | raise e => exact ⟨0, .raise e, .inr ⟨e, rfl⟩, rfl⟩
  | act c next ih =>
    obtain ⟨n, q, he, h⟩ := ih i w (S.apply c i w) (⟨c, i, w⟩ :: tr)
    refine ⟨n + 1, q, he, ?_⟩
    rw [replicate_succ]
    have hm : S.move ⟨w, ps ++ .act c next :: qs, tr⟩ (.step ps.length i) =
        ⟨S.apply c i w, ps ++ next i w :: qs, ⟨c, i, w⟩ :: tr⟩ := by
      simp [move]
    change S.run (S.move ⟨w, ps ++ .act c next :: qs, tr⟩ (.step ps.length i)) _ = _
    rw [hm, h]
    simp [Prog.transitions, Prog.runWith]

theorem start_of_mem_steps {r r' : ρ} {n j : Nat} {i : ι}
    (h : Move.start r ∈ (.start r' :: List.replicate n (.step j i) : List (Move ρ η ι))) : r = r' := by
  rcases mem_cons.mp h with h | h
  · exact Move.start.inj h
  · cases eq_of_mem_replicate h

theorem run_request (i : ι) (r : ρ) (w : σ) (tr : List (Transition κ ι σ)) :
    ∃ ms, (∀ r', Move.start r' ∈ ms → r' = r) ∧
      (S.run ⟨w, [], tr⟩ ms).world = ((S.program r).runWith S.apply i w).2 ∧
      (S.run ⟨w, [], tr⟩ ms).trace = ((S.program r).transitions S.apply i w).reverse ++ tr := by
  obtain ⟨n, q, -, hr⟩ := run_alone (S := S) i (S.program r) [] [] w tr
  exact ⟨.start r :: List.replicate n (.step 0 i), fun _ h => start_of_mem_steps h,
    congrArg Sys.world hr, congrArg Sys.trace hr⟩

/-- One request takes its first step, another one is served as a whole, and then the first goes on. -/
theorem run_overtaken (i : ι) (r₁ r₂ : ρ) {c : κ} {next : ι → σ → Prog κ ι σ ε Unit}
    (h : S.program r₂ = .act c next) (w : σ) :
    ∃ ms ms', (∀ r, Move.start r ∈ ms ++ ms' → r = r₁ ∨ r = r₂) ∧
      (S.run (Sys.init w) ms).world = ((S.program r₁).runWith S.apply i (S.apply c i w)).2 ∧
      (S.run (Sys.init w) (ms ++ ms')).world =
        ((next i w).runWith S.apply i ((S.program r₁).runWith S.apply i (S.apply c i w)).2).2 := by
  have hf : S.run (Sys.init w) [.start r₂, .step 0 i] = ⟨S.apply c i w, [next i w], [⟨c, i, w⟩]⟩ := by
    simp [run, move, Sys.init, h]
  obtain ⟨n, q₁, -, hr₁⟩ := run_alone (S := S) i (S.program r₁) [next i w] [] (S.apply c i w) [⟨c, i, w⟩]
  have hb : S.run (Sys.init w) ([.start r₂, .step 0 i] ++ .start r₁ :: List.replicate n (.step 1 i)) =
      ⟨((S.program r₁).runWith S.apply i (S.apply c i w)).2, [next i w, q₁],
        ((S.program r₁).transitions S.apply i (S.apply c i w)).reverse ++ [⟨c, i, w⟩]⟩ := by
    rw [run_append, hf]
    exact hr₁
  obtain ⟨m, q₂, -, hr₂⟩ := run_alone (S := S) i (next i w) [] [q₁]
    ((S.program r₁).runWith S.apply i (S.apply c i w)).2
    (((S.program r₁).transitions S.apply i (S.apply c i w)).reverse ++ [⟨c, i, w⟩])
  refine ⟨[.start r₂, .step 0 i] ++ .start r₁ :: List.replicate n (.step 1 i), List.replicate m (.step 0 i),
    ?_, congrArg Sys.world hb, ?_⟩
  · intro r hr
    rcases mem_append.mp hr with hr | hr
    · rcases mem_append.mp hr with hr | hr
      · simp only [mem_cons, Move.start.injEq, reduceCtorEq, not_mem_nil, or_false] at hr
        exact .inr hr
      · exact .inl (start_of_mem_steps hr)
    · cases eq_of_mem_replicate hr
  · rw [run_append, hb]
    exact congrArg Sys.world hr₂

end System

/-- A lone program can end this way, for some inputs. -/
inductive Ends (apply : κ → ι → σ → σ) : Prog κ ι σ ε α → σ → Except ε α → σ → Prop
  | ret (a : α) (s : σ) : Ends apply (.ret a) s (.ok a) s
  | raise (e : ε) (s : σ) : Ends apply (.raise e) s (.error e) s
  | act {c : κ} {n : ι → σ → Prog κ ι σ ε α} {s s' : σ} {r : Except ε α} (i : ι) :
    Ends apply (n i s) (apply c i s) r s' → Ends apply (.act c n) s r s'

namespace Ends
variable {apply : κ → ι → σ → σ} {s s₁ s' : σ} {e : ε}
variable {p : Prog κ ι σ ε α} {r : Except ε α} {f : α → Prog κ ι σ ε β}

theorem of_runWith (i : ι) (p : Prog κ ι σ ε α) (s : σ) :
    Ends apply p s (p.runWith apply i s).1 (p.runWith apply i s).2 := by
  induction p generalizing s with
  | ret a => exact .ret a s
  | raise e => exact .raise e s
  | act c n ih => exact .act i (ih i s (apply c i s))

theorem of_runWith_eq {i : ι} (h : p.runWith apply i s = (r, s')) : Ends apply p s r s' := by
  have he : Ends apply p s (p.runWith apply i s).1 (p.runWith apply i s).2 := of_runWith i p s
  rwa [h] at he

theorem bind {a : α} {r : Except ε β}
    (hp : Ends apply p s (.ok a) s₁) (hf : Ends apply (f a) s₁ r s') : Ends apply (p.bind f) s r s' := by
  generalize hok : Except.ok a = outcome at hp
  induction hp with
  | ret b s =>
    cases hok
    exact hf
  | raise e s => cases hok
  | act i _ ih => exact .act i (ih hf hok)

theorem bind_error (hp : Ends apply p s (.error e) s') : Ends apply (p.bind f) s (.error e) s' := by
  generalize he : Except.error e = outcome at hp
  induction hp with
  | ret a s => cases he
  | raise e' s =>
    cases he
    exact .raise e s
  | act i _ ih => exact .act i (ih he)

theorem handle {h : ε → Prog κ ι σ ε α}
    (hp : Ends apply p s (.error e) s₁) (hh : Ends apply (h e) s₁ r s') : Ends apply (p.handle h) s r s' := by
  generalize he : Except.error e = outcome at hp
  induction hp with
  | ret a s => cases he
  | raise e' s =>
    cases he
    exact hh
  | act i _ ih => exact .act i (ih hh he)

end Ends

/-- Every state a lone program visits satisfies `J`, whatever inputs it is given, and it
returns only in states that satisfy `Q`. -/
def Along (apply : κ → ι → σ → σ) (J : σ → Prop) (Q : α → σ → Prop) : Prog κ ι σ ε α → σ → Prop
  | .ret a, s => J s ∧ Q a s
  | .raise _, s => J s
  | .act c n, s => J s ∧ ∀ i, Along apply J Q (n i s) (apply c i s)

namespace Along
variable {apply : κ → ι → σ → σ} {J : σ → Prop} {Q : α → σ → Prop} {R : β → σ → Prop} {s : σ}
variable {p : Prog κ ι σ ε α} {s' : σ} {J' : σ → Prop} {Q' : α → σ → Prop} {a : α}

theorem inv (h : Along apply J Q p s) : J s := by
  cases p with
  | ret a => exact h.1
  | raise e => exact h
  | act c n => exact h.1

theorem bind {f : α → Prog κ ι σ ε β} (hp : Along apply J Q p s)
    (hf : ∀ a s', J s' → Q a s' → Along apply J R (f a) s') : Along apply J R (p.bind f) s := by
  induction p generalizing s with
  | ret a => exact hf a s hp.1 hp.2
  | raise e => exact hp
  | act c n ih => exact ⟨hp.1, fun i => ih i s (hp.2 i)⟩

theorem handle {h : ε → Prog κ ι σ ε α} (hp : Along apply J Q p s)
    (hh : ∀ e s', J s' → Along apply J Q (h e) s') : Along apply J Q (p.handle h) s := by
  induction p generalizing s with
  | ret a => exact hp
  | raise e => exact hh e s hp
  | act c n ih => exact ⟨hp.1, fun i => ih i s (hp.2 i)⟩

theorem ensure {f : Except ε α → Prog κ ι σ ε Unit} (hp : Along apply J Q p s)
    (hok : ∀ a s', J s' → Q a s' → Along apply J (fun _ => Q a) (f (.ok a)) s')
    (he : ∀ e s', J s' → Along apply J (fun _ _ => True) (f (.error e)) s') : Along apply J Q (p.ensure f) s := by
  induction p generalizing s with
  | ret a => exact (hok a s hp.1 hp.2).bind fun _ s' hJ hQ => ⟨hJ, hQ⟩
  | raise e => exact (he e s hp).bind fun _ s' hJ _ => hJ
  | act c n ih => exact ⟨hp.1, fun i => ih i s (hp.2 i)⟩

theorem mono (hJ : ∀ s, J s → J' s)
    (hQ : ∀ a s, Q a s → Q' a s) (hp : Along apply J Q p s) : Along apply J' Q' p s := by
  induction p generalizing s with
  | ret a => exact ⟨hJ s hp.1, hQ a s hp.2⟩
  | raise e => exact hJ s hp
  | act c n ih => exact ⟨hJ s hp.1, fun i => ih i s (hp.2 i)⟩

theorem and (hp : Along apply J Q p s) (hp' : Along apply J' Q' p s) :
    Along apply (fun s => J s ∧ J' s) (fun a s => Q a s ∧ Q' a s) p s := by
  induction p generalizing s with
  | ret a => exact ⟨⟨hp.1, hp'.1⟩, hp.2, hp'.2⟩
  | raise e => exact ⟨hp, hp'⟩
  | act c n ih => exact ⟨⟨hp.1, hp'.1⟩, fun i => ih i s (hp.2 i) (hp'.2 i)⟩

theorem of_issues {C : κ → Prop} {P : α → Prop}
    (hC : ∀ c i s, C c → J s → J (apply c i s)) (hp : Issues J C P p) (hs : J s) :
    Along apply J (fun a s' => P a ∧ J s') p s := by
  induction p generalizing s with
  | ret a => exact ⟨hs, hp, hs⟩
  | raise e => exact hs
  | act c n ih => exact ⟨hs, fun i => ih i s (hp.2 i s hs) (hC c i s hp.1 hs)⟩

theorem runWith {i : ι} (hp : Along apply J Q p s) (h : p.runWith apply i s = (.ok a, s')) : Q a s' := by
  induction p generalizing s with
  | ret b =>
    cases h
    exact hp.2
  | raise e => cases h
  | act c n ih => exact ih i s (hp.2 i) h

theorem ends_ok (hp : Along apply J Q p s) (h : Ends apply p s (.ok a) s') : Q a s' := by
  generalize hok : Except.ok a = outcome at h
  induction h with
  | ret b s =>
    cases hok
    exact hp.2
  | raise e s => cases hok
  | act i _ ih => exact ih (hp.2 i) hok

theorem ends {r : Except ε α} (hp : Along apply J Q p s) (h : Ends apply p s r s') : J s' := by
  induction h with
  | ret b s => exact hp.1
  | raise e s => exact hp
  | act i _ ih => exact ih (hp.2 i)

theorem feed (hp : Along apply J Q p s) (is : List ι) : J (p.feed apply is s).2 := by
  induction is generalizing p s with
  | nil => exact hp.inv
  | cons i is ih =>
    cases p with
    | ret a => exact hp.1
    | raise e => exact hp
    | act c n => exact ih (hp.2 i)

end Along

end AsyncScheduler
