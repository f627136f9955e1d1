import AsyncScheduler.Platform.DagEngine
import AsyncScheduler.Shared.Levels

/-!
# The waves of a definition

`_topo_sort` counts down the dependencies of each step.
-/

namespace AsyncScheduler
open List

namespace DagEngine
variable {steps : List DagStep} {queue done : List String} {degrees : List (String × Int)} {x : String}

def names (steps : List DagStep) : List String := steps.map DagStep.stepName

/-- `depends_on` of the step with a name. -/
def dependencies (steps : List DagStep) (name : String) : List String :=
  ((stepNamed steps name).map DagStep.dependsOn).getD []

variable {name : String} {s : DagStep}

theorem stepNamed_mem (h : stepNamed steps name = some s) : s ∈ steps ∧ s.stepName = name :=
  ⟨mem_reverse.mp (mem_of_find?_eq_some h), by simpa using List.find?_some h⟩

theorem exists_stepNamed (h : name ∈ names steps) : ∃ s, stepNamed steps name = some s := by
  obtain ⟨s, hs, rfl⟩ := mem_map.mp h
  refine Option.isSome_iff_exists.mp (List.find?_isSome.mpr ⟨s, mem_reverse.mpr hs, ?_⟩)
  exact decide_eq_true rfl

theorem stepNamed_of_mem (hdistinct : (names steps).Nodup) (hs : s ∈ steps) :
    stepNamed steps s.stepName = some s := by
  obtain ⟨t, ht⟩ := exists_stepNamed (mem_map_of_mem hs)
  obtain ⟨htm, hn⟩ := stepNamed_mem ht
  rw [ht, inj_on_of_nodup_map hdistinct htm hs hn]

theorem dependencies_of_mem (hdistinct : (names steps).Nodup) (hs : s ∈ steps) :
    dependencies steps s.stepName = s.dependsOn := by
  rw [dependencies, stepNamed_of_mem hdistinct hs]
  rfl

theorem lookup_upsert (d : List (String × Int)) (k : String) (v : Int) (n : String) :
    (upsert d k v).lookup n = if n = k then some v else d.lookup n := by
  unfold upsert
  split
  · next han =>
    rw [JsonValue.lookup_map_assign]
    by_cases hn : n = k
    · subst hn
      obtain ⟨e, he, hna⟩ := any_eq_true.mp han
      have hs : (d.lookup n).isSome = true := by
        by_contra hno
        have ha := lookup_eq_none_iff.mp (Option.not_isSome_iff_eq_none.mp hno) e he
        simp [of_decide_eq_true hna] at ha
      obtain ⟨w, hw⟩ := Option.isSome_iff_exists.mp hs
      simp [hw]
    · rw [if_neg hn, if_neg hn]
  · next han =>
    have ha : d.lookup k = none := by
      refine lookup_eq_none_iff.mpr fun e he => ?_
      rw [bne_iff_ne]
      rintro rfl
      exact han (any_eq_true.mpr ⟨e, he, decide_eq_true rfl⟩)
    rw [lookup_append]
    by_cases hn : n = k
    · subst hn
      simp [ha]
    · have hne : (n == k) = false := beq_eq_false_iff_ne.mpr hn
      simp [hn, lookup_cons, hne]

theorem inDegree_eq (hdistinct : (names steps).Nodup) :
    inDegree steps = steps.map fun s => (s.stepName, (s.dependsOn.length : Int)) := by
  have hf : ∀ (rest : List DagStep) (d : List (String × Int)), (names rest).Nodup →
      (∀ e ∈ d, e.1 ∉ names rest) → rest.foldl (fun d s => upsert d s.stepName s.dependsOn.length) d =
        d ++ rest.map fun s => (s.stepName, (s.dependsOn.length : Int)) := by
    intro rest
    induction rest with
    | nil =>
      intro d _ _
      simp
    | cons s rest ih =>
      intro d hno hne
      obtain ⟨hs, hr⟩ := nodup_cons.mp hno
      have hfr : upsert d s.stepName s.dependsOn.length = d ++ [(s.stepName, (s.dependsOn.length : Int))] := by
        unfold upsert
        rw [if_neg]
        intro ha
        obtain ⟨e, he, hn⟩ := any_eq_true.mp ha
        exact hne e he (by simp [names, of_decide_eq_true hn])
      rw [foldl_cons, hfr, ih _ hr]
      · simp
      · intro e he
        rcases mem_append.mp he with he | he
        · intro hm
          exact hne e he (mem_cons_of_mem _ hm)
        · rw [mem_singleton.mp he]
          exact hs
  have h := hf steps [] hdistinct fun e he => absurd he not_mem_nil
  simpa [inDegree] using h

/-- One round of relaxing lowers each degree by the number of edges from the queue. -/
theorem foldl_relax (nbrs : List String) (degrees : List (String × Int)) (queue : List String)
    (hk : ∀ x ∈ nbrs, ∃ m, degrees.lookup x = some m) :
    (∀ x m, degrees.lookup x = some m →
      (nbrs.foldl relax (degrees, queue)).1.lookup x = some (m - nbrs.count x) ∧
      (x ∈ (nbrs.foldl relax (degrees, queue)).2 ↔ x ∈ queue ∨ 0 < m ∧ m ≤ nbrs.count x)) ∧
    (∀ x ∈ (nbrs.foldl relax (degrees, queue)).2, x ∈ queue ∨ x ∈ nbrs) ∧
    (queue.Nodup → (∀ x m, degrees.lookup x = some m → x ∈ queue → m ≤ 0) →
      (nbrs.foldl relax (degrees, queue)).2.Nodup) := by
  induction nbrs generalizing degrees queue with
  | nil =>
    refine ⟨fun x m hm => ⟨by simpa using hm, ?_⟩, fun x hx => .inl hx, fun h _ => h⟩
    simp only [foldl_nil, count_nil]
    constructor
    · exact .inl
    · rintro (hx | ⟨hpos, hle⟩)
      · exact hx
      · omega
  | cons n nbrs ih =>
    obtain ⟨d, hd⟩ := hk n mem_cons_self
    have hr : relax (degrees, queue) n =
        (upsert degrees n (d - 1), if d - 1 = 0 then queue ++ [n] else queue) := by
      simp [relax, hd]
    rw [foldl_cons, hr]
    obtain ⟨hc, hf, hn⟩ := ih (upsert degrees n (d - 1)) (if d - 1 = 0 then queue ++ [n] else queue) (by
        intro x hx
        obtain ⟨m, hm⟩ := hk x (mem_cons_of_mem n hx)
        rw [lookup_upsert]
        split
        · exact ⟨_, rfl⟩
        · exact ⟨m, hm⟩)
    have hme : ∀ x, x ∈ (if d - 1 = 0 then queue ++ [n] else queue) ↔ x ∈ queue ∨ x = n ∧ d = 1 := by
      intro x
      split
      · have : d = 1 := by omega
        simp [this]
      · have : d ≠ 1 := by omega
        simp [this]
    refine ⟨fun x m hm => ?_, fun x hx => ?_, fun hqu hdo => hn ?_ ?_⟩
    · by_cases hx : x = n
      · subst hx
        obtain rfl : d = m := Option.some.inj (hd.symm.trans hm)
        have hl : (upsert degrees x (d - 1)).lookup x = some (d - 1) := by rw [lookup_upsert, if_pos rfl]
        obtain ⟨h₁, h₂⟩ := hc x (d - 1) hl
        rw [h₁, h₂, hme, count_cons_self]
        refine ⟨congrArg some (by push_cast; omega), ?_⟩
        push_cast
        constructor
        · rintro ((hq | ⟨-, ho⟩) | ⟨hpos, hle⟩)
          · exact .inl hq
          · exact .inr ⟨by omega, by omega⟩
          · exact .inr ⟨by omega, by omega⟩
        · rintro (hq | ⟨hpos, hle⟩)
          · exact .inl (.inl hq)
          · by_cases ho : d = 1
            · exact .inl (.inr ⟨rfl, ho⟩)
            · exact .inr ⟨by omega, by omega⟩
      · have hl : (upsert degrees n (d - 1)).lookup x = some m := by rw [lookup_upsert, if_neg hx, hm]
        obtain ⟨h₁, h₂⟩ := hc x m hl
        rw [h₁, h₂, hme, count_cons_of_ne (Ne.symm hx)]
        refine ⟨rfl, ?_⟩
        simp [hx]
    · rcases hf x hx with hx | hx
      · rcases (hme x).mp hx with hx | ⟨rfl, -⟩
        · exact .inl hx
        · exact .inr mem_cons_self
      · exact .inr (mem_cons_of_mem n hx)
    · split
      · next hz =>
        rw [nodup_append]
        refine ⟨hqu, pairwise_singleton _ n, ?_⟩
        rintro x hx y hy rfl
        rw [mem_singleton.mp hy] at hx
        have := hdo n d hd hx
        omega
      · exact hqu
    · intro x m hm hx
      rw [lookup_upsert] at hm
      split at hm
      · next heq =>
        subst heq
        obtain rfl := Option.some.inj hm
        rcases (hme x).mp hx with hx | ⟨-, ho⟩
        · have := hdo x d hd hx
          omega
        · omega
      · next hne =>
        rcases (hme x).mp hx with hx | ⟨heq, -⟩
        · exact hdo x m hm hx
        · exact absurd heq hne

theorem keys_upsert (d : List (String × Int)) (k : String) (v : Int) :
    (upsert d k v).map Prod.fst = if k ∈ d.map Prod.fst then d.map Prod.fst else d.map Prod.fst ++ [k] := by
  have ha : d.any (fun e => decide (e.1 = k)) = true ↔ k ∈ d.map Prod.fst := by
    rw [any_eq_true, mem_map]
    simp
  unfold upsert
  by_cases hk : k ∈ d.map Prod.fst
  · rw [if_pos (ha.mpr hk), if_pos hk, map_map]
    refine map_congr_left fun e _ => ?_
    by_cases he : e.1 = k
    · simp [he]
    · simp [he]
  · rw [if_neg (mt ha.mp hk), if_neg hk, map_append]
    rfl

theorem keys_inDegree (steps : List DagStep) :
    ((inDegree steps).map Prod.fst).Nodup ∧ ∀ x, x ∈ (inDegree steps).map Prod.fst ↔ x ∈ names steps := by
  have hf : ∀ (rest : List DagStep) (d : List (String × Int)), (d.map Prod.fst).Nodup →
      ((rest.foldl (fun d s => upsert d s.stepName s.dependsOn.length) d).map Prod.fst).Nodup ∧
      ∀ x, x ∈ (rest.foldl (fun d s => upsert d s.stepName s.dependsOn.length) d).map Prod.fst ↔
        x ∈ d.map Prod.fst ∨ x ∈ names rest := by
    intro rest
    induction rest with
    | nil => exact fun d hd => ⟨hd, fun x => by simp [names]⟩
    | cons s rest ih =>
      intro d hd
      have hke := keys_upsert d s.stepName s.dependsOn.length
      obtain ⟨hn, hm⟩ := ih (upsert d s.stepName s.dependsOn.length) (by
        rw [hke]
        split
        · exact hd
        · next hne =>
          rw [nodup_append]
          refine ⟨hd, pairwise_singleton _ _, fun x hx y hy heq => hne ?_⟩
          rw [← mem_singleton.mp hy, ← heq]
          exact hx)
      refine ⟨hn, fun x => ?_⟩
      rw [foldl_cons, hm x, hke, show names (s :: rest) = s.stepName :: names rest from rfl, mem_cons]
      by_cases hk : s.stepName ∈ d.map Prod.fst
      · rw [if_pos hk]
        constructor
        · rintro (hx | hx)
          · exact .inl hx
          · exact .inr (.inr hx)
        · rintro (hx | rfl | hx)
          · exact .inl hx
          · exact .inl hk
          · exact .inr hx
      · rw [if_neg hk, mem_append, mem_singleton, or_assoc]
  obtain ⟨hn, hm⟩ := hf steps [] nodup_nil
  exact ⟨hn, fun x => (hm x).trans (by simp)⟩

theorem lookup_of_mem {d : List (String × Int)} (hd : (d.map Prod.fst).Nodup) {k : String} {v : Int}
    (h : (k, v) ∈ d) : d.lookup k = some v := by
  rw [lookup_eq_some_iff]
  obtain ⟨before, after, rfl⟩ := append_of_mem h
  refine ⟨before, after, rfl, fun e he => ?_⟩
  rw [bne_iff_ne]
  rintro rfl
  rw [map_append, map_cons] at hd
  have ho := (nodup_cons.mp (perm_middle.nodup_iff.mp hd)).1
  exact ho (mem_append_left _ (mem_map.mpr ⟨e, he, rfl⟩))

theorem mem_names_of_mem_neighbours {q : String} (h : x ∈ neighbours steps q) : x ∈ names steps := by
  obtain ⟨s, hs, hin⟩ := mem_flatMap.mp h
  obtain ⟨_, _, rfl⟩ := mem_map.mp hin
  exact mem_map_of_mem hs

/-- What the loop keeps for every definition: a name that has been handed out, or is about to be, has
nothing left to count down. -/
structure Spent (steps : List DagStep) (done : List String) (degrees : List (String × Int)) (queue : List String) :
    Prop where
  known : ∀ x ∈ names steps, ∃ m, degrees.lookup x = some m
  spent : ∀ x ∈ done ++ queue, ∃ m, degrees.lookup x = some m ∧ m ≤ 0
  queued : ∀ x ∈ queue, x ∈ names steps
  distinct : (done ++ queue).Nodup

theorem spent_start (steps : List DagStep) :
    Spent steps [] (inDegree steps) (((inDegree steps).filter (·.2 = 0)).map Prod.fst) := by
  obtain ⟨hk, hm⟩ := keys_inDegree steps
  have hq : ∀ x ∈ ((inDegree steps).filter (·.2 = 0)).map Prod.fst, (x, 0) ∈ inDegree steps := by
    intro x hx
    obtain ⟨⟨k, v⟩, he, rfl⟩ := mem_map.mp hx
    obtain ⟨he, hz⟩ := mem_filter.mp he
    obtain rfl : v = 0 := of_decide_eq_true hz
    exact he
  refine ⟨fun x hx => ?_, fun x hx => ?_, fun x hx => ?_, ?_⟩
  · obtain ⟨⟨k, v⟩, he, rfl⟩ := mem_map.mp ((hm x).mpr hx)
    exact ⟨v, lookup_of_mem hk he⟩
  · exact ⟨0, lookup_of_mem hk (hq x (by simpa using hx)), le_refl 0⟩
  · exact (hm x).mp (mem_map.mpr ⟨(x, 0), hq x hx, rfl⟩)
  · exact List.Nodup.sublist (List.Sublist.map _ filter_sublist) hk

theorem Spent.next (h : Spent steps done degrees queue) :
    Spent steps (done ++ queue) ((queue.flatMap (neighbours steps)).foldl relax (degrees, [])).1
      ((queue.flatMap (neighbours steps)).foldl relax (degrees, [])).2 := by
  have hn : ∀ x ∈ queue.flatMap (neighbours steps), x ∈ names steps := by
    intro x hx
    obtain ⟨q, -, hq⟩ := mem_flatMap.mp hx
    exact mem_names_of_mem_neighbours hq
  obtain ⟨hc, hf, hno⟩ := foldl_relax (queue.flatMap (neighbours steps)) degrees []
    fun x hx => h.known x (hn x hx)
  have hne : ∀ x ∈ ((queue.flatMap (neighbours steps)).foldl relax (degrees, [])).2, x ∈ names steps := by
    intro x hx
    rcases hf x hx with hni | hx
    · exact absurd hni not_mem_nil
    · exact hn x hx
  refine ⟨fun x hx => ?_, fun x hx => ?_, hne, ?_⟩
  · obtain ⟨m, hm⟩ := h.known x hx
    exact ⟨_, (hc x m hm).1⟩
  · rcases mem_append.mp hx with hx | hx
    · obtain ⟨m, hm, hle⟩ := h.spent x hx
      exact ⟨_, (hc x m hm).1, by omega⟩
    · obtain ⟨m, hm⟩ := h.known x (hne x hx)
      have hle := ((hc x m hm).2.mp hx).resolve_left not_mem_nil
      exact ⟨_, (hc x m hm).1, by omega⟩
  · rw [nodup_append]
    refine ⟨h.distinct, hno nodup_nil fun x m _ hx => absurd hx not_mem_nil, fun x hx y hy heq => ?_⟩
    subst heq
    obtain ⟨m, hm, hle⟩ := h.spent x hx
    have hpos := ((hc x m hm).2.mp hy).resolve_left not_mem_nil
    omega

theorem countP_not_append (hdi : ∀ x ∈ queue, x ∉ done) (ds : List String) :
    (ds.countP fun d => decide (d ∉ done)) =
      (ds.countP fun d => decide (d ∉ done ++ queue)) + ds.countP (· ∈ queue) := by
  induction ds with
  | nil => rfl
  | cons d ds ih =>
    rw [countP_cons, countP_cons, countP_cons, ih]
    by_cases hq : d ∈ queue
    · simp [hq, hdi d hq]
      omega
    · by_cases hd : d ∈ done
      · simp [hq, hd]
      · simp [hq, hd]
        omega

theorem Spent.disjoint (h : Spent steps done degrees queue) : ∀ x ∈ queue, x ∉ done := by
  intro x hx hd
  exact (nodup_append.mp h.distinct).2.2 x hd x hx rfl

theorem Spent.fewer (h : Spent steps done degrees queue) (hqu : queue ≠ []) :
    ((names steps).countP fun d => decide (d ∉ done ++ queue)) < (names steps).countP fun d => decide (d ∉ done) := by
  obtain ⟨q, hq⟩ := exists_mem_of_ne_nil queue hqu
  have hpos : 0 < (names steps).countP (· ∈ queue) := countP_pos_iff.mpr ⟨q, h.queued q hq, decide_eq_true hq⟩
  have hs := countP_not_append h.disjoint (names steps)
  omega

theorem wavesFrom_nil (steps : List DagStep) (fuel : Nat) (degrees : List (String × Int)) :
    wavesFrom steps fuel degrees [] = [] := by
  cases fuel with
  | zero => rfl
  | succ fuel => rfl

theorem wavesFrom_cons (h : queue ≠ []) (fuel : Nat)
    (degrees : List (String × Int)) : wavesFrom steps (fuel + 1) degrees queue = queue :: wavesFrom steps fuel
      ((queue.flatMap (neighbours steps)).foldl relax (degrees, [])).1
      ((queue.flatMap (neighbours steps)).foldl relax (degrees, [])).2 := by
  rw [wavesFrom, if_neg h]

/-- The rest of the loop hands out names of steps that were left, none of them twice. The rounds it is
given are enough: more of them change nothing. -/
theorem wavesFrom_spent {fuel : Nat} (h : Spent steps done degrees queue)
    (hfu : ((names steps).countP fun d => decide (d ∉ done)) ≤ fuel) :
    (done ++ (wavesFrom steps fuel degrees queue).flatten).Nodup ∧
    (∀ x ∈ (wavesFrom steps fuel degrees queue).flatten, x ∈ names steps) ∧
    ∀ extra, wavesFrom steps (fuel + extra) degrees queue = wavesFrom steps fuel degrees queue := by
  induction fuel generalizing done degrees queue with
  | zero =>
    by_cases he : queue = []
    · subst he
      refine ⟨?_, fun x hx => absurd hx not_mem_nil, fun extra => wavesFrom_nil steps _ _⟩
      simpa [wavesFrom] using h.distinct
    · have := h.fewer he
      omega
  | succ fuel ih =>
    by_cases he : queue = []
    · subst he
      rw [wavesFrom_nil]
      refine ⟨?_, fun x hx => absurd hx not_mem_nil, fun extra => wavesFrom_nil steps _ _⟩
      simpa using h.distinct
    · have hf := h.fewer he
      obtain ⟨hno, hn, hex⟩ := ih h.next (by omega)
      rw [wavesFrom_cons he]
      refine ⟨?_, fun x hx => ?_, fun extra => ?_⟩
      · rw [flatten_cons, ← append_assoc]
        exact hno
      · rw [flatten_cons] at hx
        rcases mem_append.mp hx with hx | hx
        · exact h.queued x hx
        · exact hn x hx
      · rw [show fuel + 1 + extra = fuel + extra + 1 by omega, wavesFrom_cons he, hex]

theorem names_left_le (steps : List DagStep) :
    ((names steps).countP fun d => decide (d ∉ ([] : List String))) ≤ steps.length := by
  refine countP_le_length.trans ?_
  simp [names]

theorem topoSort_nodup (steps : List DagStep) : (topoSort steps).flatten.Nodup := by
  have h := (wavesFrom_spent (spent_start steps) (names_left_le steps)).1
  rwa [nil_append] at h

theorem mem_names_of_mem_topoSort (hx : x ∈ (topoSort steps).flatten) : x ∈ names steps :=
  (wavesFrom_spent (spent_start steps) (names_left_le steps)).2.1 x hx

theorem topoSort_extra (steps : List DagStep) (extra : Nat) :
    wavesFrom steps (steps.length + extra) (inDegree steps) (((inDegree steps).filter (·.2 = 0)).map Prod.fst) =
      topoSort steps :=
  (wavesFrom_spent (spent_start steps) (names_left_le steps)).2.2 extra

theorem sum_count (hqu : queue.Nodup) (ds : List String) :
    (queue.map fun q => ds.count q).sum = ds.countP (· ∈ queue) := by
  induction queue with
  | nil => simp
  | cons q qs ih =>
    obtain ⟨hq, hqs⟩ := nodup_cons.mp hqu
    rw [map_cons, sum_cons, ih hqs]
    clear ih
    induction ds with
    | nil => rfl
    | cons d ds ihd =>
      rw [count_cons, countP_cons, countP_cons, ← ihd]
      by_cases hd : d = q
      · subst hd
        simp [hq]
        omega
      · simp [hd]
        omega

theorem count_neighbours (hdistinct : (names steps).Nodup) (hx : x ∈ names steps) (hq : queue.Nodup) :
    (queue.flatMap (neighbours steps)).count x = (dependencies steps x).countP (· ∈ queue) := by
  have hon : ∀ q, (neighbours steps q).count x = (dependencies steps x).count q := by
    intro q
    obtain ⟨s, hs, rfl⟩ := mem_map.mp hx
    rw [dependencies_of_mem hdistinct hs]
    obtain ⟨before, after, rfl⟩ := append_of_mem hs
    have ho : ∀ t ∈ before ++ after, t.stepName ≠ s.stepName := by
      intro t ht heq
      rw [names, map_append, map_cons] at hdistinct
      have hou := (nodup_cons.mp (perm_middle.nodup_iff.mp hdistinct)).1
      rw [← map_append, ← heq] at hou
      exact hou (mem_map_of_mem ht)
    have hz : ∀ l : List DagStep, (∀ t ∈ l, t.stepName ≠ s.stepName) → (neighbours l q).count s.stepName = 0 := by
      intro l hl
      refine count_eq_zero.mpr fun hm => ?_
      obtain ⟨t, ht, hin⟩ := mem_flatMap.mp hm
      obtain ⟨_, _, heq⟩ := mem_map.mp hin
      exact hl t ht heq
    have hsp : neighbours (before ++ s :: after) q =
        neighbours before q ++ ((s.dependsOn.filter (· = q)).map fun _ => s.stepName) ++ neighbours after q := by
      simp [neighbours]
    rw [hsp, count_append, count_append, hz before fun t ht => ho t (mem_append_left _ ht),
      hz after fun t ht => ho t (mem_append_right _ ht)]
    have hse : ((s.dependsOn.filter (· = q)).map fun _ => s.stepName).count s.stepName = s.dependsOn.count q := by
      rw [map_const', count_replicate_self, List.count, countP_eq_length_filter]
      rfl
    omega
  rw [count_flatMap]
  simp only [Function.comp_def, hon]
  exact sum_count hq _

/-- The state of the loop before round `k`, with the names it has handed out. -/
structure AtLevel (steps : List DagStep) (k : Nat) (done : List String) (degrees : List (String × Int))
    (queue : List String) : Prop where
  mem_done : ∀ x, x ∈ done ↔ x ∈ upTo (names steps) (dependencies steps) k
  degree : ∀ x ∈ names steps, degrees.lookup x =
    some (((dependencies steps x).countP fun d => decide (d ∉ done) : Nat) : Int)
  distinct : queue.Nodup
  mem_queue : ∀ x, x ∈ queue ↔
    x ∈ upTo (names steps) (dependencies steps) (k + 1) ∧ x ∉ upTo (names steps) (dependencies steps) k

section
variable (hdistinct : (names steps).Nodup)
variable {k : Nat} {done : List String} {degrees : List (String × Int)} {queue : List String} {x : String}

include hdistinct

theorem lookup_inDegree {s : DagStep} (hs : s ∈ steps) :
    (inDegree steps).lookup s.stepName = some (s.dependsOn.length : Int) := by
  refine lookup_of_mem (keys_inDegree steps).1 ?_
  rw [inDegree_eq hdistinct]
  exact mem_map_of_mem hs

theorem atLevel_zero :
    AtLevel steps 0 [] (inDegree steps) (((inDegree steps).filter (·.2 = 0)).map Prod.fst) where
  mem_done x := by simp [upTo]
  degree x hx := by
    obtain ⟨s, hs, rfl⟩ := mem_map.mp hx
    rw [lookup_inDegree hdistinct hs, dependencies_of_mem hdistinct hs]
    simp
  distinct := by
    rw [inDegree_eq hdistinct]
    refine List.Nodup.sublist (List.Sublist.map _ filter_sublist) ?_
    rw [map_map]
    exact hdistinct
  mem_queue x := by
    rw [inDegree_eq hdistinct]
    constructor
    · intro hx
      obtain ⟨e, he, rfl⟩ := mem_map.mp hx
      obtain ⟨hm, hz⟩ := mem_filter.mp he
      obtain ⟨s, hs, rfl⟩ := mem_map.mp hm
      refine ⟨⟨mem_map_of_mem hs, fun d hd => ?_⟩, Set.notMem_empty _⟩
      have hn : s.dependsOn = [] := by simpa using hz
      rw [dependencies_of_mem hdistinct hs, hn] at hd
      cases hd
    · rintro ⟨⟨hx, hde⟩, -⟩
      obtain ⟨s, hs, rfl⟩ := mem_map.mp hx
      rw [dependencies_of_mem hdistinct hs] at hde
      have hn : s.dependsOn = [] := eq_nil_iff_forall_not_mem.mpr fun d hd => hde d hd
      refine mem_map.mpr ⟨(s.stepName, 0), mem_filter.mpr ⟨?_, decide_eq_true rfl⟩, rfl⟩
      exact mem_map.mpr ⟨s, hs, by simp [hn]⟩

/-- A round of the loop leads to the next level. -/
theorem AtLevel.next (h : AtLevel steps k done degrees queue) :
    AtLevel steps (k + 1) (done ++ queue) ((queue.flatMap (neighbours steps)).foldl relax (degrees, [])).1
      ((queue.flatMap (neighbours steps)).foldl relax (degrees, [])).2 := by
  have hna : ∀ x ∈ queue.flatMap (neighbours steps), x ∈ names steps := by
    intro x hx
    obtain ⟨q, -, hq⟩ := mem_flatMap.mp hx
    exact mem_names_of_mem_neighbours hq
  obtain ⟨hc, hf, hno⟩ := foldl_relax (queue.flatMap (neighbours steps)) degrees []
    fun x hx => ⟨_, h.degree x (hna x hx)⟩
  have hm : ∀ x, x ∈ done ++ queue ↔ x ∈ upTo (names steps) (dependencies steps) (k + 1) := by
    intro x
    rw [mem_append, h.mem_done, h.mem_queue]
    constructor
    · rintro (hx | hx)
      · exact upTo_succ_of_mem hx
      · exact hx.1
    · intro hx
      by_cases hk : x ∈ upTo (names steps) (dependencies steps) k
      · exact .inl hk
      · exact .inr ⟨hx, hk⟩
  have hdi : ∀ x ∈ queue, x ∉ done := fun x hx hd => ((h.mem_queue x).mp hx).2 ((h.mem_done x).mp hd)
  have hs := fun x => countP_not_append hdi (dependencies steps x)
  refine ⟨hm, fun x hx => ?_, hno nodup_nil fun x m _ hx => absurd hx not_mem_nil, fun x => ?_⟩
  · rw [(hc x _ (h.degree x hx)).1, count_neighbours hdistinct hx h.distinct, hs x]
    exact congrArg some (by push_cast; omega)
  · have hqu : x ∈ names steps → (x ∈ ((queue.flatMap (neighbours steps)).foldl relax (degrees, [])).2 ↔
        (¬ ∀ d ∈ dependencies steps x, d ∈ done) ∧ ∀ d ∈ dependencies steps x, d ∈ done ++ queue) := by
      intro hx
      rw [(hc x _ (h.degree x hx)).2, count_neighbours hdistinct hx h.distinct]
      have hpos : (0 < (dependencies steps x).countP fun d => decide (d ∉ done)) ↔
          ¬ ∀ d ∈ dependencies steps x, d ∈ done := by
        rw [countP_pos_iff]
        simp
      have hz : ((dependencies steps x).countP fun d => decide (d ∉ done ++ queue)) = 0 ↔
          ∀ d ∈ dependencies steps x, d ∈ done ++ queue := by
        rw [countP_eq_zero]
        simp only [decide_eq_true_eq, not_not]
      rw [← hpos, ← hz]
      have := hs x
      constructor
      · rintro (hni | ⟨h₁, h₂⟩)
        · exact absurd hni not_mem_nil
        · exact ⟨by omega, by omega⟩
      · rintro ⟨h₁, h₂⟩
        exact .inr ⟨by omega, by omega⟩
    constructor
    · intro hx
      have hn : x ∈ names steps := by
        rcases hf x hx with hni | hx
        · exact absurd hni not_mem_nil
        · exact hna x hx
      obtain ⟨hnot, ha⟩ := (hqu hn).mp hx
      refine ⟨⟨hn, fun d hd => (hm d).mp (ha d hd)⟩, fun hup => hnot fun d hd => ?_⟩
      exact (h.mem_done d).mpr (hup.2 d hd)
    · rintro ⟨hup, hnot⟩
      refine (hqu hup.1).mpr ⟨fun ha => hnot ⟨hup.1, fun d hd => (h.mem_done d).mp (ha d hd)⟩, fun d hd => ?_⟩
      exact (hm d).mpr (hup.2 d hd)

omit hdistinct in
theorem AtLevel.last (h : AtLevel steps k done degrees []) {l : Nat}
    (hx : x ∈ upTo (names steps) (dependencies steps) l) : x ∈ upTo (names steps) (dependencies steps) k := by
  refine upTo_stable (fun y hy => ?_) l hx
  by_contra hn
  exact absurd ((h.mem_queue y).mpr ⟨hy, hn⟩) not_mem_nil

theorem wavesFrom_levels {fuel : Nat}
    (h : AtLevel steps k done degrees queue) (hs : Spent steps done degrees queue)
    (hfu : ((names steps).countP fun d => decide (d ∉ done)) ≤ fuel) :
    (∀ i wave, (wavesFrom steps fuel degrees queue)[i]? = some wave →
      ∀ x, x ∈ wave ↔ x ∈ upTo (names steps) (dependencies steps) (k + i + 1) ∧
        x ∉ upTo (names steps) (dependencies steps) (k + i)) ∧
    ∀ l x, x ∈ upTo (names steps) (dependencies steps) l → x ∉ upTo (names steps) (dependencies steps) k →
      x ∈ (wavesFrom steps fuel degrees queue).flatten := by
  induction fuel generalizing k done degrees queue with
  | zero =>
    by_cases he : queue = []
    · subst he
      exact ⟨fun i wave hi => by simp [wavesFrom] at hi, fun l x hx hno => absurd (h.last hx) hno⟩
    · have := hs.fewer he
      omega
  | succ fuel ih =>
    by_cases he : queue = []
    · subst he
      exact ⟨fun i wave hi => by simp [wavesFrom] at hi, fun l x hx hno => absurd (h.last hx) hno⟩
    · have hf := hs.fewer he
      obtain ⟨hwa, hc⟩ := ih (h.next hdistinct) hs.next (by omega)
      rw [wavesFrom_cons he]
      refine ⟨fun i wave hi => ?_, fun l x hx hno => ?_⟩
      · cases i with
        | zero =>
          obtain rfl : queue = wave := by simpa using hi
          exact h.mem_queue
        | succ i =>
          have hw := hwa i wave (by simpa using hi)
          rw [show k + 1 + i = k + (i + 1) by omega] at hw
          exact hw
      · rw [flatten_cons, mem_append]
        by_cases hn : x ∈ upTo (names steps) (dependencies steps) (k + 1)
        · exact .inl ((h.mem_queue x).mpr ⟨hn, hno⟩)
        · exact .inr (hc l x hx hn)

theorem topoSort_levels : (∀ i wave, (topoSort steps)[i]? = some wave →
      ∀ x, x ∈ wave ↔ x ∈ upTo (names steps) (dependencies steps) (i + 1) ∧
        x ∉ upTo (names steps) (dependencies steps) i) ∧
    ∀ x, x ∈ (topoSort steps).flatten ↔ ∃ l, x ∈ upTo (names steps) (dependencies steps) l := by
  obtain ⟨hw, hc⟩ := wavesFrom_levels hdistinct (atLevel_zero hdistinct) (spent_start steps)
    (names_left_le steps)
  simp only [Nat.zero_add] at hw
  refine ⟨hw, fun x => ⟨fun hx => ?_, fun ⟨l, hl⟩ => ?_⟩⟩
  · obtain ⟨wave, hwa, hx⟩ := mem_flatten.mp hx
    obtain ⟨i, hi⟩ := List.getElem?_of_mem hwa
    exact ⟨i + 1, ((hw i wave hi x).mp hx).1⟩
  · exact hc l x hl (Set.notMem_empty x)

theorem mem_passed_of_dependency {passed rest : List (List String)} {wave : List String}
    (ho : topoSort steps = passed ++ wave :: rest) {d : String} (hx : x ∈ wave)
    (hd : d ∈ dependencies steps x) : d ∈ passed.flatten := by
  obtain ⟨hw, ha⟩ := topoSort_levels hdistinct
  have hwa : (topoSort steps)[passed.length]? = some wave := by simp [ho]
  have hl : d ∈ upTo (names steps) (dependencies steps) passed.length :=
    ((hw _ wave hwa x).mp hx).1.2 d hd
  obtain ⟨earlier, he, hm⟩ := mem_flatten.mp ((ha d).mpr ⟨_, hl⟩)
  obtain ⟨i, hi⟩ := List.getElem?_of_mem he
  have hn := ((hw i earlier hi d).mp hm).2
  have hlt : i < passed.length := by
    by_contra hge
    exact hn (upTo_mono (Nat.le_of_not_lt hge) hl)
  rw [ho, List.getElem?_append_left hlt] at hi
  exact mem_flatten.mpr ⟨earlier, mem_of_getElem? hi, hm⟩

end

/-- The loop of `_topo_sort` ends by itself: rounds beyond the number of steps add nothing. Its waves
have no name twice, hold exactly the steps that need neither an unknown step nor a step of a cycle, and
the index of a step's wave is the length of the longest chain of dependencies that starts at it. -/
theorem topoSort_correct (steps : List DagStep) (hdistinct : (names steps).Nodup) :
    (∀ extra, wavesFrom steps (steps.length + extra) (inDegree steps)
      (((inDegree steps).filter (·.2 = 0)).map Prod.fst) = topoSort steps) ∧
    (topoSort steps).flatten.Nodup ∧
    (∀ x, x ∈ (topoSort steps).flatten ↔ x ∈ names steps ∧
      ∀ y, Relation.TransGen (Needs (dependencies steps)) x y →
        y ∈ names steps ∧ ¬ Relation.TransGen (Needs (dependencies steps)) y y) ∧
    ∀ i wave x, (topoSort steps)[i]? = some wave → x ∈ wave →
      (∃ path : List String, (x :: path).IsChain (Needs (dependencies steps)) ∧ path.length = i) ∧
      ∀ path : List String, (x :: path).IsChain (Needs (dependencies steps)) → path.length ≤ i := by
  obtain ⟨hw, ha⟩ := topoSort_levels hdistinct
  refine ⟨topoSort_extra steps, topoSort_nodup steps, fun x => (ha x).trans exists_upTo_iff, fun i wave x hi hx => ?_⟩
  obtain ⟨hup, hn⟩ := (hw i wave hi x).mp hx
  exact ⟨exists_chain hup hn, fun path hp => length_le_of_chain hup hp⟩

def tangledSteps : List DagStep :=
  [{ stepName := "a", capability := "gpu" }, { stepName := "b", capability := "gpu", dependsOn := ["a", "a"] },
    { stepName := "c", capability := "gpu", dependsOn := ["a", "ghost"] },
    { stepName := "d", capability := "gpu", dependsOn := ["d"] }]

theorem topoSort_correct_tangled : topoSort tangledSteps = [["a"], ["b"]] ∧
    (topoSort tangledSteps).flatten.Nodup ∧
    (∃ path : List String, ("b" :: path).IsChain (Needs (dependencies tangledSteps)) ∧ path.length = 1) := by
  have ho : topoSort tangledSteps = [["a"], ["b"]] := by decide +kernel
  obtain ⟨-, hn, -, hl⟩ := topoSort_correct tangledSteps (by decide)
  exact ⟨ho, hn, (hl 1 ["b"] "b" (by rw [ho]; rfl) List.mem_cons_self).1⟩

end DagEngine

end AsyncScheduler
