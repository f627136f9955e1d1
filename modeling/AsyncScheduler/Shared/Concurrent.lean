import AsyncScheduler.Shared.Interleaving

/-!
# Children that run to their ends

A group of children that is not interrupted runs each of them to its end, in whatever order the
schedule asks for.
-/

namespace AsyncScheduler

variable {κ ι σ ε α β : Type}

namespace Prog

def finished : Prog κ ι σ ε α → Bool
  | .act _ _ => false
  | _ => true

section Pool
variable {apply : κ → ι → σ → σ} {i : ι} {stop : ι → Option ε}
  {G : List (Prog κ ι σ ε α) → σ → Prop}
  (hG : ∀ ps j c n s, ps[j]? = some (.act c n) → G ps s → G (ps.set j (n i s)) (apply c i s))
include hG

theorem pool_child (done ps : List (Prog κ ι σ ε α)) (p : Prog κ ι σ ε α) {s : σ} (hs : G (done ++ p :: ps) s) :
    ∃ p', p'.finished = true ∧ G (done ++ p' :: ps) (p.runWith apply i s).2 := by
  induction p generalizing s with
  | ret a => exact ⟨.ret a, rfl, hs⟩
  | raise e => exact ⟨.raise e, rfl, hs⟩
  | act c n ih =>
    have hst := hG _ done.length c n s (by simp) hs
    exact ih i s (by simpa using hst)

variable (hstop : stop i = none)
include hstop

omit hG in
theorem runWith_settle (p : Prog κ ι σ ε α) (s : σ) :
    (p.settle stop).runWith apply i s = (.ok (p.runWith apply i s).1, (p.runWith apply i s).2) := by
  induction p generalizing s with
  | ret a => rfl
  | raise e => rfl
  | act c n ih =>
    simp only [settle, runWith_act, hstop]
    exact ih i s (apply c i s)

theorem pool_settleAll (done ps : List (Prog κ ι σ ε α)) {s : σ} (hs : G (done ++ ps) s) :
    ∃ ps', ps'.length = ps.length ∧ (∀ p ∈ ps', p.finished = true) ∧
      G (done ++ ps') ((settleAll stop ps).runWith apply i s).2 := by
  induction ps generalizing done s with
  | nil => exact ⟨[], rfl, fun _ h => absurd h List.not_mem_nil, hs⟩
  | cons p ps ih =>
    obtain ⟨p', hp', hc⟩ := pool_child hG done ps p hs
    obtain ⟨ps', hl, hf, hr⟩ := ih (done ++ [p']) (by simpa using hc)
    refine ⟨p' :: ps', by simp [hl], List.forall_mem_cons.mpr ⟨hp', hf⟩, ?_⟩
    rw [settleAll, runWith_bind_ok (runWith_settle hstop p s), runWith_bind]
    split <;> simpa [*] using hr

theorem pool_gather (sched : List Nat) (ps : List (Prog κ ι σ ε α)) {s : σ} (hs : G ps s) :
    ∃ ps', ps'.length = ps.length ∧ (∀ p ∈ ps', p.finished = true) ∧
      G ps' ((gather stop sched ps).runWith apply i s).2 := by
  induction sched generalizing ps s with
  | nil => exact pool_settleAll hG hstop [] ps hs
  | cons j sched ih =>
    unfold gather
    split
    · rename_i c n hj
      obtain ⟨ps', hl, h⟩ := ih _ (hG _ j c n s hj hs)
      refine ⟨ps', by simpa using hl, ?_⟩
      simpa [hstop] using h
    · exact ih ps hs

end Pool

end Prog

section
variable (apply : κ → ι → σ → σ) (i : ι) (I P : σ → Prop)

def Keeps (c : κ) : Prop := ∀ s, P s → P (apply c i s)

def Achieves : Prog κ ι σ ε α → Prop
  | .ret _ => False
  | .raise _ => False
  | .act c n => ∀ s, I s →
    (I (apply c i s) ∧ Achieves (n i s)) ∨
      (P (apply c i s) ∧ Issues P (Keeps apply i P) (fun _ => True) (n i s))

end

namespace Achieves
variable {apply : κ → ι → σ → σ} {i : ι} {I P : σ → Prop}
variable {p : Prog κ ι σ ε α}

theorem bind {f : α → Prog κ ι σ ε β} (hp : Achieves apply i I P p)
    (hf : ∀ a, Issues P (Keeps apply i P) (fun _ => True) (f a)) : Achieves apply i I P (p.bind f) := by
  induction p with
  | ret a => exact hp.elim
  | raise e => exact hp.elim
  | act c n ih =>
    intro s hs
    rcases hp s hs with ⟨hI, hn⟩ | ⟨hP, hn⟩
    · exact .inl ⟨hI, ih i s hn⟩
    · exact .inr ⟨hP, hn.bind fun a _ => hf a⟩

theorem handle {h : ε → Prog κ ι σ ε α} (hp : Achieves apply i I P p)
    (hh : ∀ e, Issues P (Keeps apply i P) (fun _ => True) (h e)) : Achieves apply i I P (p.handle h) := by
  induction p with
  | ret a => exact hp.elim
  | raise e => exact hp.elim
  | act c n ih =>
    intro s hs
    rcases hp s hs with ⟨hI, hn⟩ | ⟨hP, hn⟩
    · exact .inl ⟨hI, ih i s hn⟩
    · exact .inr ⟨hP, hn.handle hh⟩

theorem ensure {f : Except ε α → Prog κ ι σ ε Unit}
    (hp : Achieves apply i I P p) (hf : ∀ r, Issues P (Keeps apply i P) (fun _ => True) (f r)) :
    Achieves apply i I P (p.ensure f) := by
  induction p with
  | ret a => exact hp.elim
  | raise e => exact hp.elim
  | act c n ih =>
    intro s hs
    rcases hp s hs with ⟨hI, hn⟩ | ⟨hP, hn⟩
    · exact .inl ⟨hI, ih i s hn⟩
    · exact .inr ⟨hP, hn.ensure (fun a _ => hf _) fun e => hf _⟩

/-- A group of two: the first child has yet to bring about `P`, or `P` holds already. -/
def Pool (apply : κ → ι → σ → σ) (i : ι) (I P : σ → Prop) (ps : List (Prog κ ι σ ε α)) (s : σ) : Prop :=
  ∃ p q, ps = [p, q] ∧
    Issues (fun _ => True) (fun c => Keeps apply i I c ∧ Keeps apply i P c) (fun _ => True) q ∧
    ((I s ∧ Achieves apply i I P p) ∨ (P s ∧ Issues P (Keeps apply i P) (fun _ => True) p))

theorem pool_step (ps : List (Prog κ ι σ ε α)) (j : Nat) (c : κ) (n : ι → σ → Prog κ ι σ ε α) (s : σ)
    (hj : ps[j]? = some (.act c n)) (hs : Pool apply i I P ps s) :
    Pool apply i I P (ps.set j (n i s)) (apply c i s) := by
  obtain ⟨p, q, rfl, hq, h⟩ := hs
  match j, hj with
  | 0, hj =>
    cases hj
    refine ⟨_, q, rfl, hq, ?_⟩
    rcases h with ⟨hI, hp⟩ | ⟨hP, hp⟩
    · exact hp s hI
    · exact .inr ⟨hp.1 s hP, hp.2 i s hP⟩
  | 1, hj =>
    cases hj
    refine ⟨p, _, rfl, hq.2 i s trivial, ?_⟩
    rcases h with ⟨hI, hp⟩ | ⟨hP, hp⟩
    · exact .inl ⟨hq.1.1 s hI, hp⟩
    · exact .inr ⟨hq.1.2 s hP, hp⟩

/-- One child brings about `P` while another one keeps `I` and `P`. -/
theorem gather {stop : ι → Option ε} (hstop : stop i = none) {q : Prog κ ι σ ε α} (hp : Achieves apply i I P p)
    (hq : Issues (fun _ => True) (fun c => Keeps apply i I c ∧ Keeps apply i P c) (fun _ => True) q)
    (sched : List Nat) {s : σ} (hs : I s) : P ((Prog.gather stop sched [p, q]).runWith apply i s).2 := by
  have hpo : Pool apply i I P [p, q] s := ⟨p, q, rfl, hq, .inl ⟨hs, hp⟩⟩
  obtain ⟨ps, _, hf, p', q', rfl, _, h⟩ := Prog.pool_gather pool_step hstop sched [p, q] hpo
  rcases h with ⟨_, ha⟩ | ⟨hP, _⟩
  · have he := hf p' List.mem_cons_self
    cases p' with
    | ret a => exact ha.elim
    | raise e => exact ha.elim
    | act c n => cases he
  · exact hP

end Achieves

section
variable (apply : κ → ι → σ → σ) (i : ι) (view : σ → σ)

def Invisible (c : κ) : Prop := ∀ s, view (apply c i s) = view s

def Confined : Prog κ ι σ ε α → Prop
  | .ret _ => True
  | .raise _ => True
  | .act c n => ∀ s, n i (view s) = n i s ∧ view (apply c i s) = apply c i (view s) ∧ Confined (n i s)

end

namespace Confined
variable {apply : κ → ι → σ → σ} {i : ι} {view : σ → σ}
variable {p : Prog κ ι σ ε α}

theorem bind {f : α → Prog κ ι σ ε β} (hp : Confined apply i view p)
    (hf : ∀ a, Confined apply i view (f a)) : Confined apply i view (p.bind f) := by
  induction p with
  | ret a => exact hf a
  | raise e => trivial
  | act c n ih =>
    intro s
    obtain ⟨hn, hc, hr⟩ := hp s
    exact ⟨congrArg (Prog.bind · f) hn, hc, ih i s hr⟩

theorem handle {h : ε → Prog κ ι σ ε α} (hp : Confined apply i view p)
    (hh : ∀ e, Confined apply i view (h e)) : Confined apply i view (p.handle h) := by
  induction p with
  | ret a => trivial
  | raise e => exact hh e
  | act c n ih =>
    intro s
    obtain ⟨hn, hc, hr⟩ := hp s
    exact ⟨congrArg (Prog.handle · h) hn, hc, ih i s hr⟩

theorem ensure {f : Except ε α → Prog κ ι σ ε Unit} (hp : Confined apply i view p)
    (hf : ∀ r, Confined apply i view (f r)) : Confined apply i view (p.ensure f) := by
  induction p with
  | ret a | raise e => exact (hf _).bind fun _ => trivial
  | act c n ih =>
    intro s
    obtain ⟨hn, hc, hr⟩ := hp s
    exact ⟨congrArg (Prog.ensure · f) hn, hc, ih i s hr⟩

theorem forEach {f : α → Prog κ ι σ ε Unit} (hf : ∀ a, Confined apply i view (f a)) (l : List α) :
    Confined apply i view (Prog.forEach f l) := by
  induction l with
  | nil => trivial
  | cons a l ih => exact (hf a).bind fun _ => ih

theorem runWith_view (hp : Confined apply i view p) (s : σ) :
    p.runWith apply i (view s) = ((p.runWith apply i s).1, view (p.runWith apply i s).2) := by
  induction p generalizing s with
  | ret a => rfl
  | raise e => rfl
  | act c n ih =>
    obtain ⟨hn, hc, hr⟩ := hp s
    rw [Prog.runWith_act, Prog.runWith_act, hn, ← hc]
    exact ih i s hr (apply c i s)

/-- Among children whose commands it cannot see, a confined child leaves what it leaves alone. -/
theorem gather {stop : ι → Option ε} (hstop : stop i = none) {ps : List (Prog κ ι σ ε α)} {k : Nat} (hk : ps[k]? = some p) (hp : Confined apply i view p)
    (hot : ∀ j q, j ≠ k → ps[j]? = some q →
      Issues (fun _ => True) (Invisible apply i view) (fun _ => True) q) (sched : List Nat) (s : σ) :
    view ((Prog.gather stop sched ps).runWith apply i s).2 = view (p.runWith apply i s).2 := by
  -- what is left of the child still leads to the same view, whatever the others have done
  let G (ps' : List (Prog κ ι σ ε α)) (s' : σ) : Prop :=
    ∃ p', ps'[k]? = some p' ∧ Confined apply i view p' ∧ (∀ j q, j ≠ k → ps'[j]? = some q →
        Issues (fun _ => True) (Invisible apply i view) (fun _ => True) q) ∧
      view (p'.runWith apply i s').2 = view (p.runWith apply i s).2
  have hs : ∀ ps' j c n s', ps'[j]? = some (.act c n) → G ps' s' → G (ps'.set j (n i s')) (apply c i s') := by
    rintro ps' j c n s' hj ⟨p', hk', hp', ho', hv⟩
    have hlen : j < ps'.length := (List.getElem?_eq_some_iff.mp hj).1
    have hset : (ps'.set j (n i s'))[j]? = some (n i s') := by simp [hlen]
    by_cases hjk : j = k
    · subst hjk
      obtain rfl : p' = .act c n := Option.some.inj (hk'.symm.trans hj)
      refine ⟨n i s', hset, (hp' s').2.2, fun l q hl hq => ho' l q hl ?_, hv⟩
      rwa [List.getElem?_set_ne (Ne.symm hl)] at hq
    · have ho := ho' j _ hjk hj
      refine ⟨p', by rwa [List.getElem?_set_ne hjk], hp', fun l q hl hq => ?_, ?_⟩
      · by_cases hlj : l = j
        · subst hlj
          obtain rfl := Option.some.inj (hset.symm.trans hq)
          exact ho.2 i s' trivial
        · rw [List.getElem?_set_ne (Ne.symm hlj)] at hq
          exact ho' l q hl hq
      · have hb := congrArg Prod.snd (hp'.runWith_view s')
        have ha := congrArg Prod.snd (hp'.runWith_view (apply c i s'))
        rw [ho.1 s'] at ha
        exact (ha.symm.trans hb).trans hv
  obtain ⟨ps', _, hf, p', hk', _, _, hv⟩ :=
    Prog.pool_gather hs hstop sched ps ⟨p, hk, hp, hot, rfl⟩
  have he := hf p' (List.mem_of_getElem? hk')
  cases p' with
  | ret a => exact hv
  | raise e => exact hv
  | act c n => cases he

end Confined

end AsyncScheduler
