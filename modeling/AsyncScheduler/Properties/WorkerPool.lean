import AsyncScheduler.Shared.PyValue
import AsyncScheduler.Workload.ActorPool
import Mathlib.Data.Nat.ModEq
import Mathlib.Tactic.FinCases
import Mathlib.Tactic.Linarith
import Mathlib.Tactic.NormNum

/-!
# Worker pool

Which workers a pool chooses, keeps and names, and how often a faulty one is replaced.
-/

namespace AsyncScheduler

namespace ActorPool

variable {b : Backend} {p : ActorPool}

def ocr : ActorPool := { capability := "ocr", capabilityRepr := "'ocr'" }

def byName : Backend := ⟨none, some fun name _ => some name⟩

theorem byPending_sorted (p : ActorPool) : p.byPending.Pairwise fun v w => v.pending ≤ w.pending := by
  have : Std.Total fun v w : WorkerHandle => v.pending ≤ w.pending := ⟨fun v w => Nat.le_total _ _⟩
  have : IsTrans WorkerHandle fun v w => v.pending ≤ w.pending := ⟨fun _ _ _ => Nat.le_trans⟩
  exact List.pairwise_insertionSort _ _

theorem byPending_length (p : ActorPool) : p.byPending.length = p.workers.length := List.length_insertionSort _ _

theorem mem_byPending {w : WorkerHandle} : w ∈ p.byPending ↔ w ∈ p.workers := List.mem_insertionSort _

theorem clamp_nonneg (p : ActorPool) (size : Int) : 0 ≤ p.clamp size := Int.le_max_left _ _

theorem resize_down {size : Int} (h : (p.clamp size).toNat < p.workers.length) :
    (p.resize b size).workers = p.byPending.take (p.clamp size).toNat := by
  simp only [resize, Nat.not_lt.mpr h.le, h, if_true, if_false]

theorem kept_le_removed {size : Int} {v w : WorkerHandle} (hv : v ∈ p.byPending.take (p.clamp size).toNat)
    (hw : w ∈ p.removed size) : v.pending ≤ w.pending := by
  have h := p.byPending_sorted
  rw [← List.take_append_drop (p.clamp size).toNat p.byPending] at h
  exact (List.pairwise_append.mp h).2.2 v hv w hw

/-- Scaling down removes the least busy workers exactly if the size is within the bounds of the pool, and is zero
or all workers are equally busy. -/
theorem resize_removes_least_busy_iff (b : Backend) (p : ActorPool) (size : Int) (h : size < p.workers.length) :
    ((∀ w ∈ p.removed size, ∀ v ∈ (p.resize b size).workers, w.pending ≤ v.pending) ∧
        ((p.resize b size).workers.length : Int) = size) ↔
      p.clamp size = size ∧ (size = 0 ∨ ∀ v ∈ p.workers, ∀ w ∈ p.workers, v.pending = w.pending) := by
  have hc := p.clamp_nonneg size
  by_cases hs : p.clamp size = size
  · have hd : (p.clamp size).toNat < p.workers.length := by omega
    have hl : (p.byPending.take (p.clamp size).toNat).length = (p.clamp size).toNat := by
      rw [List.length_take, byPending_length]
      omega
    rw [resize_down hd, hl]
    refine ⟨fun hr => ⟨hs, ?_⟩, fun hr => ⟨?_, by omega⟩⟩
    · by_cases h0 : size = 0
      · exact .inl h0
      · -- a kept and a removed worker bound every pending count from both sides
        obtain ⟨k, hk⟩ := List.exists_mem_of_length_pos (l := p.byPending.take (p.clamp size).toNat) (by omega)
        have hdl : (p.removed size).length = p.workers.length - (p.clamp size).toNat := by
          rw [removed, List.length_drop, byPending_length]
        obtain ⟨r, hr'⟩ := List.exists_mem_of_length_pos (l := p.removed size) (by omega)
        have he : ∀ v ∈ p.workers, v.pending = k.pending := by
          intro v hv
          rw [← mem_byPending, ← List.take_append_drop (p.clamp size).toNat p.byPending, List.mem_append] at hv
          have hkr := kept_le_removed hk hr'
          have hrk := hr.1 r hr' k hk
          rcases hv with hv | hv
          · have h1 := kept_le_removed hv hr'
            have h2 := hr.1 r hr' v hv
            omega
          · have h1 := kept_le_removed hk hv
            have h2 := hr.1 v hv k hk
            omega
        exact .inr fun v hv w hw => (he v hv).trans (he w hw).symm
    · intro w hw v hv
      rcases hr.2 with h0 | he
      · rw [hs, h0] at hv
        exact absurd hv (by simp)
      · exact (he w (mem_byPending.mp (List.mem_of_mem_drop hw)) v
          (mem_byPending.mp (List.mem_of_mem_take hv))).le
  · refine ⟨fun hr => absurd ?_ hs, fun hr => absurd hr.1 hs⟩
    have hn := hr.2
    have hle : p.clamp size ≤ max 0 size := by unfold clamp; omega
    by_cases hd : (p.clamp size).toNat < p.workers.length
    · rw [resize_down hd, List.length_take, byPending_length] at hn
      omega
    · have h0 : p.workers.length = 0 := by omega
      rw [resize, if_neg (by omega), if_neg hd, h0] at hn
      omega

theorem resize_removes_least_busy_two :
    let p : ActorPool := { ocr with workers := [⟨"w0", "w0", [1], []⟩, ⟨"w1", "w1", [2], []⟩] }
    (1 : Int) < p.workers.length ∧ ((p.resize ⟨none, none⟩ 1).workers.length : Int) = 1 :=
  ⟨by decide, ((resize_removes_least_busy_iff ⟨none, none⟩ _ 1 (by decide)).mpr ⟨by decide, .inr (by decide)⟩).2⟩

theorem resize_removes_busiest :
    let p : ActorPool := { ocr with workers := [⟨"w0", "w0", [1], []⟩, ⟨"w1", "w1", [], []⟩] }
    (p.removed 1).map WorkerHandle.pending = [1] ∧ (p.resize ⟨none, none⟩ 1).counts = [0] := by decide

/-- The index selected is one of a least loaded worker. -/
theorem selectIndex_eq_some {counts : List Nat} (next : Nat) (h : counts ≠ []) :
    ∃ i, selectIndex counts next = some i ∧ i < counts.length ∧ counts[i]? = counts.min? := by
  obtain ⟨m, hm⟩ := Option.isSome_iff_exists.mp (List.isSome_min?_of_ne_nil h)
  obtain ⟨j, hj, he⟩ := List.mem_iff_getElem.mp (List.min?_mem hm)
  -- the positions from `next` on, modulo the length, are all positions
  have hs : (selectIndex counts next).isSome := by
    rw [selectIndex, List.find?_isSome]
    refine ⟨j, List.mem_map.mpr ⟨(j + (counts.length - next % counts.length)) % counts.length,
      List.mem_range.mpr (Nat.mod_lt _ (by omega)), ?_⟩, by simp [hm, he, hj]⟩
    have hn := Nat.mod_lt next (by omega : counts.length > 0)
    rw [Nat.add_mod_mod, ← Nat.mod_add_mod, show next % counts.length + (j + (counts.length - next % counts.length)) =
      j + counts.length by omega, Nat.add_mod_right, Nat.mod_eq_of_lt hj]
  obtain ⟨i, hi⟩ := Option.isSome_iff_exists.mp hs
  refine ⟨i, hi, ?_, by simpa using List.find?_some hi⟩
  obtain ⟨k, _, rfl⟩ := List.mem_map.mp (List.mem_of_find?_eq_some hi)
  exact Nat.mod_lt _ (by omega)

theorem selectIndex_replicate {n next : Nat} (c : Nat) (h : next < n) :
    selectIndex (List.replicate n c) next = some next := by
  obtain ⟨k, rfl⟩ : ∃ k, n = k + 1 := ⟨n - 1, by omega⟩
  have hm : (List.replicate (k + 1) c).min? = some c := by simp
  rw [selectIndex, List.length_replicate, List.range_succ_eq_map, List.map_cons,
    show (next + 0) % (k + 1) = next from Nat.mod_eq_of_lt h, List.find?_cons_of_pos (by simp [hm, h])]

def Indexed (p : ActorPool) : Prop := p.nextIndex < max 1 p.workers.length

theorem addWorker_nextIndex (idx : Nat) : (addWorker b p idx).nextIndex = p.nextIndex := by
  unfold addWorker
  split <;> rfl

theorem addWorker_length_le (idx : Nat) : p.workers.length ≤ (addWorker b p idx).workers.length := by
  unfold addWorker
  split
  · simp
  · exact Nat.le_refl _

theorem Indexed.foldl_addWorker (h : p.Indexed) (l : List Nat) : (l.foldl (addWorker b) p).Indexed := by
  induction l generalizing p with
  | nil => exact h
  | cons i l ih =>
    apply ih
    have hl := addWorker_length_le (b := b) (p := p) i
    unfold Indexed at h ⊢
    rw [addWorker_nextIndex]
    omega

theorem Indexed.resize (h : p.Indexed) (size : Int) : (p.resize b size).Indexed := by
  unfold ActorPool.resize
  dsimp only
  split
  · exact h.foldl_addWorker _
  · split
    · have hm := Nat.mod_lt p.nextIndex (y := max 1 (p.byPending.take (p.clamp size).toNat).length) (by omega)
      exact hm
    · exact h

/-- A selection from a pool with workers takes the loop's exit, never the fallback line. -/
theorem selectWorker_eq (ready : Nat → Bool) (h : p.workers ≠ []) :
    ∃ i, selectIndex (p.refresh ready).counts p.nextIndex = some i ∧ i < p.workers.length ∧
      (p.refresh ready).counts[i]? = (p.refresh ready).counts.min? ∧
      p.selectWorker ready = (.ok i, { p.refresh ready with nextIndex := (i + 1) % p.workers.length }) := by
  have hc : (p.refresh ready).counts ≠ [] := by simpa [counts, refresh] using h
  have hl : (p.refresh ready).counts.length = p.workers.length := by simp [counts, refresh]
  obtain ⟨i, hi, hlt, hm⟩ := selectIndex_eq_some p.nextIndex hc
  refine ⟨i, hi, hl ▸ hlt, hm, ?_⟩
  have hw : (p.refresh ready).workers ≠ [] := by simpa [refresh] using h
  have hn : (p.refresh ready).workers.length = p.workers.length := by simp [refresh]
  rw [selectWorker, if_neg hw, show (p.refresh ready).nextIndex = p.nextIndex from rfl, hi, hn]

theorem Indexed.select (h : p.Indexed) (ready : Nat → Bool) : (p.selectWorker ready).2.Indexed := by
  by_cases hw : p.workers = []
  · simpa [selectWorker, refresh, hw] using h
  · obtain ⟨i, -, -, -, he⟩ := selectWorker_eq ready hw
    have hpos := List.length_pos_iff.mpr hw
    have hm := Nat.mod_lt (i + 1) hpos
    rw [he]
    simp only [Indexed, refresh, List.length_map]
    omega

theorem Indexed.step (h : p.Indexed) (op : Op) : (p.step op).Indexed := by
  cases op with
  | resize b size => exact h.resize size
  | select ready => exact h.select ready
  | replace b idx =>
    simp only [ActorPool.step, replaceWorker]
    split
    · simpa [Indexed] using h
    · exact h
  | load idx refs => simpa [ActorPool.step, Indexed] using h

theorem Indexed.run (h : p.Indexed) (ops : List Op) : (p.run ops).Indexed := by
  induction ops generalizing p with
  | nil => exact h
  | cons op ops ih => exact ih (h.step op)

def selections (ready : Nat → Bool) : Nat → ActorPool → List (Except PyErr Nat)
  | 0, _ => []
  | k + 1, p => (p.selectWorker ready).1 :: selections ready k (p.selectWorker ready).2

theorem refreshInflight_refreshInflight (ready : Nat → Bool) (w : WorkerHandle) :
    (w.refreshInflight ready).refreshInflight ready = w.refreshInflight ready := by
  simp [WorkerHandle.refreshInflight]

/-- With equal counts the selections go round the pool from the next index on. -/
theorem selections_eq (ready : Nat → Bool) {c : Nat} (k : Nat) :
    ∀ p : ActorPool, p.nextIndex < p.workers.length →
      (p.refresh ready).counts = List.replicate p.workers.length c →
      p.selections ready k = (List.range k).map fun j => .ok ((p.nextIndex + j) % p.workers.length) := by
  induction k with
  | zero =>
    intro p _ _
    rfl
  | succ k ih =>
    intro p hp hc
    obtain ⟨i, hi, -, -, he⟩ := selectWorker_eq ready (List.length_pos_iff.mp (by omega : 0 < p.workers.length))
    rw [hc, selectIndex_replicate c hp, Option.some.injEq] at hi
    subst hi
    have hl : (p.refresh ready).workers.length = p.workers.length := by simp [refresh]
    have hrest := ih { p.refresh ready with nextIndex := (p.nextIndex + 1) % p.workers.length }
      (by simpa [refresh] using Nat.mod_lt _ (by omega))
      (by simpa [counts, refresh, Function.comp_def, refreshInflight_refreshInflight] using hc)
    rw [selections, he, hrest, List.range_succ_eq_map, List.map_cons, List.map_map]
    simp only [hl, Nat.add_zero, Nat.mod_eq_of_lt hp, Function.comp_def, Nat.mod_add_mod, Nat.add_right_comm _ 1,
      Nat.succ_eq_add_one, Nat.add_assoc]

/-- Over every run of a started pool that has workers: a selection returns a least busy one through the loop, keeps
the index within the pool, and a full round over equal counts visits every worker once. -/
theorem select_least_loaded_round_robin (b : Backend) (p : ActorPool) (ops : List Op) (ready : Nat → Bool)
    (h0 : p.workers = []) (hn : p.nextIndex = 0) (h : ((p.start b).run ops).workers ≠ []) :
    let q := (p.start b).run ops
    q.nextIndex < q.workers.length ∧
    (∃ i, selectIndex (q.refresh ready).counts q.nextIndex = some i ∧ i < q.workers.length ∧
      (q.refresh ready).counts[i]? = (q.refresh ready).counts.min? ∧ (q.selectWorker ready).1 = .ok i) ∧
    (q.selectWorker ready).2.nextIndex < (q.selectWorker ready).2.workers.length ∧
    ∀ c, (q.refresh ready).counts = List.replicate q.workers.length c →
      (q.selections ready q.workers.length).Nodup := by
  intro q
  have hs : p.Indexed := by simp [Indexed, hn, h0]
  have hq : q.Indexed := (hs.foldl_addWorker _).run ops
  have hpos : 0 < q.workers.length := List.length_pos_iff.mpr h
  have hlt : q.nextIndex < q.workers.length := by
    unfold Indexed at hq
    omega
  obtain ⟨i, hi, hil, hm, he⟩ := selectWorker_eq ready h
  refine ⟨hlt, ⟨i, hi, hil, hm, by rw [he]⟩, ?_, ?_⟩
  · rw [he]
    simpa [refresh] using Nat.mod_lt _ hpos
  · intro c hc
    rw [selections_eq ready _ q hlt hc]
    refine List.Nodup.map_on ?_ List.nodup_range
    intro j hj k hk hjk
    have hmod : (q.nextIndex + j) ≡ (q.nextIndex + k) [MOD q.workers.length] := Except.ok.inj hjk
    exact Nat.ModEq.eq_of_lt_of_lt (Nat.ModEq.add_left_cancel' _ hmod) (List.mem_range.mp hj) (List.mem_range.mp hk)

/-- Three workers under different loads; once the second answer of the busiest is in, they are equal. -/
theorem select_least_loaded_round_robin_three :
    let q := (({ ocr with targetSize := 3 } : ActorPool).start byName).run
      [.load 0 [1], .load 1 [2, 3], .select fun _ => false, .load 2 [4]]
    q.counts = [1, 2, 1] ∧
    (∃ i, (q.refresh fun _ => false).counts[i]? = some 1 ∧ (q.selectWorker fun _ => false).1 = .ok i) ∧
    q.selections (· = 2) 3 = [.ok 0, .ok 1, .ok 2] ∧ (q.selections (· = 2) 3).Nodup := by
  intro q
  have h : q.workers ≠ [] := List.ne_nil_of_length_pos (by decide +kernel)
  have ht (ready : Nat → Bool) := select_least_loaded_round_robin byName { ocr with targetSize := 3 }
    [.load 0 [1], .load 1 [2, 3], .select fun _ => false, .load 2 [4]] ready rfl rfl h
  obtain ⟨-, ⟨i, -, -, hm, hi⟩, -⟩ := ht fun _ => false
  refine ⟨by decide +kernel, ⟨i, hm.trans (by decide +kernel), hi⟩, by decide +kernel, ?_⟩
  exact (ht (· = 2)).2.2.2 1 (by decide +kernel)

/-- The backend the pool is meant to run on: an actor is found under its own name, and the factory succeeds. -/
def Reliable (b : Backend) : Prop := ∀ name idx, b.tryRecoverOrCreate name idx = some name

def Named (p : ActorPool) : Prop :=
  ∀ i w, p.workers[i]? = some w → w.name = p.workerName i ∧ w.actor = p.workerName i

theorem workerName_injective (p : ActorPool) : Function.Injective p.workerName := by
  intro i j h
  simp only [workerName, String.append_right_inj] at h
  exact natRepr_injective h

theorem Named.names_nodup (h : p.Named) : (p.workers.map WorkerHandle.name).Nodup := by
  rw [List.nodup_iff_getElem?_ne_getElem?]
  intro i j hij hj he
  simp only [List.length_map] at hj
  rw [List.getElem?_map, List.getElem?_map, List.getElem?_eq_getElem (by omega), List.getElem?_eq_getElem hj,
    Option.map_some, Option.map_some, Option.some.injEq, (h i _ (List.getElem?_eq_getElem _)).1,
    (h j _ (List.getElem?_eq_getElem _)).1] at he
  exact absurd (p.workerName_injective he) (by omega)

theorem Named.actors_nodup (h : p.Named) : (p.workers.map WorkerHandle.actor).Nodup := by
  have he : p.workers.map WorkerHandle.actor = p.workers.map WorkerHandle.name := by
    refine List.map_congr_left fun w hw => ?_
    obtain ⟨i, hi⟩ := List.mem_iff_getElem?.mp hw
    exact (h i w hi).2.trans (h i w hi).1.symm
  exact he ▸ h.names_nodup

theorem addWorker_of_reliable (hb : Reliable b) (idx : Nat) :
    addWorker b p idx = { p with workers := p.workers ++ [⟨p.workerName idx, p.workerName idx, [], []⟩] } := by
  simp only [addWorker, hb _ _]

theorem Named.addWorker (hb : Reliable b) (h : p.Named) : (addWorker b p p.workers.length).Named := by
  rw [addWorker_of_reliable hb]
  intro i w hi
  rw [List.getElem?_append] at hi
  split at hi
  · exact h i w hi
  · rw [List.getElem?_singleton, Option.ite_none_right_eq_some, Option.some.injEq] at hi
    obtain ⟨hz, rfl⟩ := hi
    have he : i = p.workers.length := by omega
    subst he
    exact ⟨rfl, rfl⟩

theorem Named.grow (hb : Reliable b) (k : Nat) :
    ∀ p : ActorPool, p.Named → ((List.range' p.workers.length k).foldl (ActorPool.addWorker b) p).Named := by
  induction k with
  | zero =>
    intro p h
    exact h
  | succ k ih =>
    intro p h
    have hl : (ActorPool.addWorker b p p.workers.length).workers.length = p.workers.length + 1 := by
      simp [addWorker_of_reliable hb]
    have hn := ih _ (h.addWorker hb)
    rw [hl] at hn
    exact hn

/-- What a scale-down needs to leave the names in place: no worker stands before a less busy one. -/
def Orderly (p : ActorPool) : List Op → Prop
  | [] => True
  | op :: ops =>
    (∀ b size, op = .resize b size → Reliable b ∧ ((p.clamp size).toNat < p.workers.length →
      p.workers.Pairwise fun v w => v.pending ≤ w.pending)) ∧
    (∀ b idx, op = .replace b idx → Reliable b) ∧ (p.step op).Orderly ops

theorem Named.modify (h : p.Named) (idx : Nat) {f : WorkerHandle → WorkerHandle}
    (hn : ∀ w, (f w).name = w.name) (ha : ∀ w, w.actor = p.workerName idx → (f w).actor = p.workerName idx) :
    Named { p with workers := p.workers.modify idx f } := by
  intro i w hi
  simp only [List.getElem?_modify, Option.map_eq_map, Option.map_eq_some_iff] at hi
  obtain ⟨v, hv, rfl⟩ := hi
  have hvn := h i v hv
  split
  · rename_i he
    subst he
    exact ⟨(hn v).trans hvn.1, ha v hvn.2⟩
  · exact hvn

theorem Named.resize {size : Int} (hb : Reliable b) (h : p.Named)
    (ho : (p.clamp size).toNat < p.workers.length → p.workers.Pairwise fun v w => v.pending ≤ w.pending) :
    (p.resize b size).Named := by
  unfold ActorPool.resize
  dsimp only
  split
  · exact Named.grow hb _ p h
  · split
    · rename_i hd
      intro i w hi
      simp only [byPending, (ho hd).insertionSort_eq, List.getElem?_take] at hi
      split at hi
      · exact h i w hi
      · exact absurd hi (by simp)
    · exact h

theorem Named.select (h : p.Named) (ready : Nat → Bool) : (p.selectWorker ready).2.Named := by
  by_cases hw : p.workers = []
  · simpa [selectWorker, refresh, hw] using h
  · obtain ⟨j, -, -, -, he⟩ := selectWorker_eq ready hw
    rw [he]
    intro i w hi
    simp only [refresh, List.getElem?_map, Option.map_eq_some_iff] at hi
    obtain ⟨v, hv, rfl⟩ := hi
    exact h i v hv

theorem Named.run (ops : List Op) : ∀ p : ActorPool, p.Named → p.Orderly ops → (p.run ops).Named := by
  induction ops with
  | nil =>
    intro p h _
    exact h
  | cons op ops ih =>
    intro p h ho
    refine ih _ ?_ ho.2.2
    cases op with
    | resize b size =>
      obtain ⟨hb, hs⟩ := ho.1 b size rfl
      exact h.resize hb hs
    | select ready => exact h.select ready
    | replace b idx =>
      simp only [ActorPool.step, replaceWorker, ho.2.1 b idx rfl _ _]
      exact h.modify idx (fun _ => rfl) fun _ _ => rfl
    | load idx refs => exact h.modify idx (fun _ => rfl) fun _ ha => ha

/-- Over every run whose scale-downs find the workers in the order of their pending counts, names and actors stay
distinct and a handle is replaced under its own name. -/
theorem workers_stay_distinct (b : Backend) (p : ActorPool) (ops : List Op) (h0 : p.workers = []) (hb : Reliable b)
    (ho : (p.start b).Orderly ops) :
    let q := (p.start b).run ops
    (q.workers.map WorkerHandle.name).Nodup ∧ (q.workers.map WorkerHandle.actor).Nodup ∧
      ∀ b' i w, Reliable b' → q.workers[i]? = some w →
        ((q.replaceWorker b' i).workers[i]?).map WorkerHandle.actor = some w.name := by
  intro q
  have hs : (p.start b).Named := by
    have hn : p.Named := fun i w hi => absurd hi (by simp [h0])
    have hg := Named.grow hb p.targetSize.toNat p hn
    rw [h0] at hg
    rwa [start, List.range_eq_range']
  have hq : q.Named := Named.run ops _ hs ho
  refine ⟨hq.names_nodup, hq.actors_nodup, fun b' i w hb' hi => ?_⟩
  simp only [replaceWorker, hb' _ _, List.getElem?_modify_eq, hi, Option.map_eq_map, Option.map_some, (hq i w hi).1]

/-- The busiest of three workers stands last and is removed, and two are added. -/
theorem workers_stay_distinct_resized :
    let p : ActorPool := { ocr with targetSize := 3 }
    let ops : List Op := [.load 2 [1], .resize byName 2, .resize byName 4]
    Reliable byName ∧ ((p.start byName).run ops).workers.length = 4 ∧
      (((p.start byName).run ops).workers.map WorkerHandle.name).Nodup ∧
      ∀ w, ((p.start byName).run ops).workers[2]? = some w →
        ((((p.start byName).run ops).replaceWorker byName 2).workers[2]?).map WorkerHandle.actor = some w.name := by
  intro p ops
  have hb : Reliable byName := fun _ _ => rfl
  have ho : (p.start byName).Orderly ops := by
    refine ⟨fun _ _ h => (by cases h), fun _ _ h => (by cases h), ?_, fun _ _ h => (by cases h), ?_,
      fun _ _ h => (by cases h), trivial⟩
    · rintro b size ⟨⟩
      exact ⟨hb, fun _ => by decide +kernel⟩
    · rintro b size ⟨⟩
      exact ⟨hb, fun hd => absurd hd (by decide +kernel)⟩
  obtain ⟨hn, -, hr⟩ := workers_stay_distinct byName p ops rfl hb ho
  exact ⟨hb, by decide +kernel, hn, fun w hw => hr byName 2 w hb hw⟩

theorem workers_share_a_name :
    let p : ActorPool := { ocr with targetSize := 3 }
    Reliable byName ∧ ((p.start byName).run [.load 0 [1], .resize byName 2, .resize byName 3]).workers.map WorkerHandle.name =
      ["worker_default_default_ocr_1", "worker_default_default_ocr_2", "worker_default_default_ocr_2"] :=
  ⟨fun _ _ => rfl, by decide +kernel⟩

end ActorPool

namespace WorkerHandle

/-- One handled fault, with the instants of all faults recorded so far. -/
def faultStep (s : WorkerHandle × List ℚ) (e : ℚ × ℚ) : WorkerHandle × List ℚ :=
  let r := s.1.onFault e.1 e.2
  (r.1, if r.2 then s.2 ++ [e.2] else s.2)

/-- The two readings of each fault, in the order of a clock that never goes back. -/
def Clocked : ℚ → List (ℚ × ℚ) → Prop
  | _, [] => True
  | last, e :: es => last ≤ e.1 ∧ e.1 ≤ e.2 ∧ Clocked e.2 es

def Faithful (s : WorkerHandle × List ℚ) : Prop :=
  ∀ now : ℚ, (∀ t ∈ s.2, t ≤ now) →
    s.1.faultTimes.filter (fun t => now - t < 300) = s.2.filter fun t => now - t < 300

def Limited (s : WorkerHandle × List ℚ) : Prop :=
  ∀ a : ℚ, (s.2.filter fun t => a ≤ t ∧ t < a + 300).length ≤ 3

theorem faultStep_cases (s : WorkerHandle × List ℚ) (e : ℚ × ℚ) :
    faultStep s e = s ∨ s.1.isTripped e.1 = false ∧ faultStep s e = (s.1.recordFault e.2, s.2 ++ [e.2]) := by
  cases ht : s.1.isTripped e.1 with
  | true => exact .inl (by simp [faultStep, onFault, ht])
  | false => exact .inr ⟨rfl, by simp [faultStep, onFault, ht]⟩

theorem recordFault_filter (w : WorkerHandle) {r now : ℚ} (h : r ≤ now) :
    (w.recordFault r).faultTimes.filter (fun t => now - t < 300) =
      (w.faultTimes ++ [r]).filter fun t => now - t < 300 := by
  rw [recordFault, List.filter_filter]
  refine List.filter_congr fun t _ => ?_
  -- the cut-off of the pruning lies before that of any later check
  have hi : now - t < 300 → r - 300 < t := fun ht => by linarith
  by_cases ht : now - t < 300
  · simp [ht, hi ht]
  · simp [ht]

theorem Faithful.step {s : WorkerHandle × List ℚ} (h : Faithful s) (e : ℚ × ℚ) : Faithful (faultStep s e) := by
  obtain he | ⟨-, he⟩ := faultStep_cases s e
  · rwa [he]
  · rw [he]
    intro now hn
    rw [recordFault_filter _ (hn e.2 (by simp)), List.filter_append, List.filter_append,
      h now fun t ht => hn t (List.mem_append_left _ ht)]

/-- No window of 300 s gets a fourth fault. -/
theorem Limited.step {s : WorkerHandle × List ℚ} {e : ℚ × ℚ} (h : Limited s) (hf : Faithful s)
    (hs : ∀ t ∈ s.2, t ≤ e.1) (hc : e.1 ≤ e.2) : Limited (faultStep s e) := by
  obtain he | ⟨ht, he⟩ := faultStep_cases s e
  · rwa [he]
  · rw [he]
    intro a
    have hlt : (s.2.filter fun t => e.1 - t < 300).length < 3 := by
      rw [← hf e.1 hs]
      simpa [isTripped] using ht
    rw [List.filter_append, List.length_append]
    by_cases hw : a ≤ e.2 ∧ e.2 < a + 300
    · -- whatever lies in a period with the new fault was counted by the check before it
      have hle : (s.2.filter fun t => a ≤ t ∧ t < a + 300).length ≤ (s.2.filter fun t => e.1 - t < 300).length := by
        refine (List.monotone_filter_right s.2 fun t hm => ?_).length_le
        have hm' := of_decide_eq_true hm
        exact decide_eq_true (by linarith [hm'.1, hw.2])
      have h1 := List.length_filter_le (fun t => decide (a ≤ t ∧ t < a + 300)) [e.2]
      rw [List.length_singleton] at h1
      omega
    · rw [List.filter_cons_of_neg (by simpa using hw), List.filter_nil, List.length_nil]
      exact h a

theorem faults_run (es : List (ℚ × ℚ)) : ∀ (last : ℚ) (s : WorkerHandle × List ℚ), Clocked last es →
    (∀ t ∈ s.2, t ≤ last) → Faithful s → Limited s →
    Faithful (es.foldl faultStep s) ∧ Limited (es.foldl faultStep s) := by
  induction es with
  | nil =>
    intro last s _ _ hf hl
    exact ⟨hf, hl⟩
  | cons e es ih =>
    intro last s hc hs hf hl
    have hs' : ∀ t ∈ s.2, t ≤ e.1 := fun t ht => (hs t ht).trans hc.1
    refine ih e.2 _ hc.2.2 ?_ (hf.step e) (hl.step hf hs' hc.2.1)
    intro t ht
    obtain he | ⟨-, he⟩ := faultStep_cases s e
    · rw [he] at ht
      exact (hs' t ht).trans hc.2.1
    · rw [he] at ht
      rcases List.mem_append.mp ht with ht | ht
      · exact (hs' t ht).trans hc.2.1
      · exact (List.mem_singleton.mp ht).le

/-- Over every sequence of faults of a new handle: at most three are recorded in a period of 300 seconds, and a
later check answers as if nothing had been pruned. -/
theorem faults_rate_limited (w : WorkerHandle) (start : ℚ) (events : List (ℚ × ℚ)) (hw : w.faultTimes = [])
    (h : Clocked start events) :
    let s := events.foldl faultStep (w, [])
    (∀ a : ℚ, (s.2.filter fun t => a ≤ t ∧ t < a + 300).length ≤ 3) ∧
      ∀ now : ℚ, (∀ t ∈ s.2, t ≤ now) →
        s.1.isTripped now = decide (3 ≤ (s.2.filter fun t => now - t < 300).length) := by
  intro s
  obtain ⟨hf, hl⟩ := faults_run events start (w, []) h (by simp) (by simp [Faithful, hw]) (by simp [Limited])
  refine ⟨hl, fun now hn => ?_⟩
  rw [isTripped, hf now hn]

/-- The fourth fault in a period is not recorded; one after it is. -/
theorem faults_rate_limited_five :
    let events : List (ℚ × ℚ) := [(1, 1), (2, 2), (3, 3), (4, 4), (302, 302)]
    let s := events.foldl faultStep (⟨"w0", "w0", [], []⟩, [])
    Clocked 0 events ∧ s.2 = [1, 2, 3, 302] ∧ (s.2.filter fun t => 1 ≤ t ∧ t < 1 + 300).length ≤ 3 ∧
      s.1.isTripped 303 = decide (3 ≤ (s.2.filter fun t => 303 - t < 300).length) := by
  intro events s
  have h : Clocked 0 events := by norm_num [Clocked, events]
  have hs : s.2 = [1, 2, 3, 302] := by decide +kernel
  obtain ⟨hl, ht⟩ := faults_rate_limited ⟨"w0", "w0", [], []⟩ 0 events rfl h
  refine ⟨h, hs, hl 1, ht 303 fun t hm => ?_⟩
  have hm' : t ∈ [1, 2, 3, 302] := hs ▸ hm
  fin_cases hm' <;> norm_num

end WorkerHandle

end AsyncScheduler
