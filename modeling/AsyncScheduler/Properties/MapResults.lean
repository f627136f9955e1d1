import AsyncScheduler.Properties.StepRetries

/-!
# Results of MAP steps

The answers to the items of a MAP step are a sequence, one for each position.
-/

namespace AsyncScheduler
open List

open DagEngine (names stepNamed topoSort)

def ItemsFrom (step : DagStep) (answers : ℕ → Except PyErr JsonValue) (t : StepTask) (signal : Signal) : Prop :=
  ∀ coll input pool i outcome, t.step = step → t.phase = .mapping coll input pool →
    signal = .item i (.reply outcome) → outcome = answers i

namespace DagStep
variable {answers : ℕ → Except PyErr JsonValue} {items : List JsonValue}

def gatheredItems (step : DagStep) (answers : ℕ → Except PyErr JsonValue) (items : List JsonValue) : List MapItem :=
  items.zipIdx.map fun e => ⟨e.2, e.1, .done (step.itemResult e.2 (answers e.2))⟩

def mapEntry (index : ℕ) : Except PyErr JsonValue → JsonValue
  | .ok v => v
  | .error e => errorMark index e

theorem collect_entries (step : DagStep)
    {f : ℕ → JsonValue} (h : ∀ i < items.length, step.itemResult i (answers i) = .ok (f i)) :
    step.collect (step.gatheredItems answers items) =
      .ok (.obj [("results", .arr ((List.range items.length).map f))]) := by
  have hi : step.gatheredItems answers items = items.zipIdx.map fun e => ⟨e.2, e.1, .done (.ok (f e.2))⟩ := by
    refine map_congr_left fun e he => ?_
    rw [h e.2 (snd_lt_of_mem_zipIdx he)]
  have her : (step.gatheredItems answers items).findSome? (fun t => itemError t.state) = none := by
    rw [hi, List.findSome?_eq_none_iff]
    intro t ht
    obtain ⟨e, -, rfl⟩ := mem_map.mp ht
    rfl
  have hen : (step.gatheredItems answers items).filterMap (fun t => entry t.state) =
      (List.range items.length).map f := by
    calc (step.gatheredItems answers items).filterMap (fun t => entry t.state)
        = items.zipIdx.filterMap (some ∘ f ∘ Prod.snd) := by rw [hi, filterMap_map]; rfl
      _ = (items.zipIdx.map Prod.snd).map f := by rw [filterMap_eq_map, map_map]
      _ = (List.range items.length).map f := by rw [zipIdx_map_snd, range_eq_range']
  rw [collect, her, hen]

theorem collect_failed (step : DagStep) {i : ℕ}
    {e : PyErr} (hp : step.mapErrorPolicy = .abortAll) (hi : i < items.length) (he : answers i = .error e)
    (ho : ∀ i e, answers i = .error e → e.isException = true) :
    ∃ j < items.length, ∃ e', answers j = .error e' ∧
      step.collect (step.gatheredItems answers items) = step.resolve e' := by
  have hit : ∀ (j : ℕ) e', answers j = .error e' → itemError (.done (step.itemResult j (answers j))) = some e' := by
    intro j e' he'
    rw [he', itemResult, hp]
    simp [itemError, ho j e' he']
  have hs : (step.gatheredItems answers items).findSome? (fun t => itemError t.state) ≠ none := by
    intro hn
    have hm : (items[i], i) ∈ items.zipIdx := by
      rw [mem_iff_getElem?]
      exact ⟨i, by simp [hi]⟩
    have hno := List.findSome?_eq_none_iff.mp hn _ (mem_map_of_mem hm)
    rw [hit i e he] at hno
    cases hno
  obtain ⟨e', he'⟩ := Option.ne_none_iff_exists'.mp hs
  obtain ⟨t, ht, hte⟩ := exists_of_findSome?_eq_some he'
  obtain ⟨x, hx, rfl⟩ := mem_map.mp ht
  refine ⟨x.2, snd_lt_of_mem_zipIdx hx, e', ?_, by simp only [collect, he', hp, if_true]⟩
  cases ha : answers x.2 with
  | ok v =>
    rw [ha] at hte
    cases hte
  | error e₁ =>
    rw [hit x.2 e₁ ha] at hte
    rw [Option.some.inj hte]

end DagStep

section
variable {setup : DagSetup} {step : DagStep} {answers : ℕ → Except PyErr JsonValue} {items : List JsonValue}
variable {sh sh' : DagShared} {coll : String} {input : JsonObj} {ph' ph : Phase}
  {pool : Pool MapItem} {s : ItemSignal} {trace trace' : List DagEvent} {signal : Signal} {S : Prop}

/-- Each item stands at its position, and the items that are done have their answers. -/
def Positioned (step : DagStep) (answers : ℕ → Except PyErr JsonValue) (items : List JsonValue) (pool : Pool MapItem) :
    Prop :=
  pool.tasks.length = items.length ∧ ∀ j t, pool.tasks[j]? = some t → t.index = j ∧ items[j]? = some t.item ∧
    ∀ result, t.state = .done result → result = step.itemResult j (answers j)

theorem positioned_mapPool : Positioned step answers items (step.mapPool items) := by
  refine ⟨by simp [DagStep.mapPool], fun j t ht => ?_⟩
  simp only [DagStep.mapPool, List.getElem?_map, Option.map_eq_some_iff, List.getElem?_zipIdx] at ht
  obtain ⟨_, ⟨item, hi, rfl⟩, rfl⟩ := ht
  exact ⟨Nat.zero_add j, hi, fun result hd => by cases hd⟩

theorem positioned_turn {pool' : Pool MapItem} {i : ℕ} (h : (step.mapCrew coll input).turn i s pool sh = some (pool', sh'))
    (ha : ∀ outcome, s = .reply outcome → outcome = answers i) (hp : Positioned step answers items pool) :
    Positioned step answers items pool' := by
  obtain ⟨t, t', ht, ho, hta⟩ := Crew.turn_tasks h
  obtain ⟨hin, hi, -⟩ := hp.2 i t ht
  have ht' : t'.index = i ∧ items[i]? = some t'.item ∧
      ∀ result, t'.state = .done result → result = step.itemResult i (answers i) := by
    obtain ⟨index, item, state⟩ := t
    obtain rfl : index = i := hin
    cases s with
    | go =>
      cases state with
      | queued =>
        obtain ⟨rfl, -⟩ := Prod.mk.inj (Option.some.inj ho)
        exact ⟨rfl, hi, fun result hd => by cases hd⟩
      | calling => cases ho
      | done _ => cases ho
    | reply outcome =>
      cases state with
      | calling =>
        obtain ⟨rfl, -⟩ := Prod.mk.inj (Option.some.inj ho)
        refine ⟨rfl, hi, fun result hd => ?_⟩
        obtain rfl := ItemState.done.inj hd
        rw [ha outcome rfl]
      | queued => cases ho
      | done _ => cases ho
  refine ⟨by rw [hta, length_set, hp.1], fun j u hu => ?_⟩
  rw [hta, List.getElem?_set] at hu
  split at hu
  · next hij =>
    subst hij
    split at hu
    · rw [← Option.some.inj hu]
      exact ht'
    · cases hu
  · exact hp.2 j u hu

theorem positioned_gathered
    (hp : Positioned step answers items pool) (h : ∀ t ∈ pool.tasks, (step.mapCrew coll input).ended t = true) :
    pool.tasks = step.gatheredItems answers items := by
  refine ext_getElem? fun j => ?_
  cases ht : pool.tasks[j]? with
  | none =>
    have hl : items.length ≤ j := hp.1 ▸ List.getElem?_eq_none_iff.mp ht
    exact (List.getElem?_eq_none_iff.mpr (by simpa [DagStep.gatheredItems] using hl)).symm
  | some t =>
    obtain ⟨hin, hi, hd⟩ := hp.2 j t ht
    have he := h t (mem_of_getElem? ht)
    obtain ⟨index, item, state⟩ := t
    obtain rfl : index = j := hin
    cases state with
    | queued => cases he
    | calling => cases he
    | done result =>
      have hi : items[index]? = some item := hi
      rw [hd result rfl]
      simp [DagStep.gatheredItems, List.getElem?_zipIdx, hi]

def Reads (step : DagStep) (trace : List DagEvent) (items : List JsonValue) : Prop :=
  ∀ items', .mapped step.stepName items' ∈ trace ↔ items' = items

def Unread (step : DagStep) (trace : List DagEvent) : Prop := ∀ items, .mapped step.stepName items ∉ trace

/-- The items of a MAP step in each place of its `_run_step`; `S` says that it has been skipped. -/
def Phase.Maps (setup : DagSetup) (step : DagStep) (answers : ℕ → Except PyErr JsonValue) (S : Prop)
    (sh : DagShared) : Phase → Prop
  | .created | .waiting _ | .inside _ => Unread step sh.trace
  | .mapping _ _ pool => ∃ items, Reads step sh.trace items ∧ Positioned step answers items pool
  | .calling _ _ | .sleeping _ _ | .streaming _ _ _ => False
  | .saving v => ∃ items, Reads step sh.trace items ∧
      Concluded setup step (step.collect (step.gatheredItems answers items)) sh (.saving v)
  | .ended o => S ∧ Unread step sh.trace ∨ ∃ items, Reads step sh.trace items ∧
      Concluded setup step (step.collect (step.gatheredItems answers items)) sh (.ended o)

section
variable (h : ∀ items', .mapped step.stepName items' ∈ trace' ↔ .mapped step.stepName items' ∈ trace)
include h

theorem Reads.congr (hr : Reads step trace items) : Reads step trace' items :=
  fun items' => (h items').trans (hr items')

theorem Unread.congr (hr : Unread step trace) : Unread step trace' :=
  fun items' hm => hr items' ((h items').mp hm)

end

theorem mem_note_mapped {e : DagEvent} (he : ∀ items, e ≠ .mapped step.stepName items)
    (items : List JsonValue) : .mapped step.stepName items ∈ (sh.note e).trace ↔ .mapped step.stepName items ∈ sh.trace := by
  rw [DagShared.note_trace, mem_append, mem_singleton]
  exact or_iff_left fun heq => he items heq.symm

theorem mem_leave_mapped {outcome : Except PyErr JsonValue}
    (h : setup.leave step outcome sh = (ph', sh')) (items : List JsonValue) :
    .mapped step.stepName items ∈ sh'.trace ↔ .mapped step.stepName items ∈ sh.trace := by
  rcases leave_cases h with ⟨e, -, -, rfl⟩ | ⟨result, ctx, -, -, ⟨-, -, rfl⟩ | ⟨-, -, rfl⟩⟩
  · exact mem_note_mapped (fun _ heq => by cases heq) items
  · rfl
  · exact mem_note_mapped (fun _ heq => by cases heq) items

theorem mem_item_mapped {t t' : MapItem} (h : step.mapOne coll input s t sh = some (t', sh')) (items : List JsonValue) :
    .mapped step.stepName items ∈ sh'.trace ↔ .mapped step.stepName items ∈ sh.trace := by
  unfold DagStep.mapOne at h
  split at h
  · obtain ⟨-, rfl⟩ := Prod.mk.inj (Option.some.inj h)
    exact mem_note_mapped (fun _ heq => by cases heq) items
  · obtain ⟨-, rfl⟩ := Prod.mk.inj (Option.some.inj h)
    exact mem_note_mapped (fun _ heq => by cases heq) items
  · cases h

theorem collect_obj {tasks : List MapItem} {v : JsonValue} (h : step.collect tasks = .ok v) :
    ∃ fields, v = .obj fields := by
  unfold DagStep.collect at h
  split at h
  · split at h
    · exact resolve_obj h
    · exact ⟨_, (Except.ok.inj h).symm⟩
  · exact ⟨_, (Except.ok.inj h).symm⟩

/-- The items keep their positions through every turn. -/
theorem StepTurn.maps (hm : step.mapKey = some coll) (ha : ItemsFrom step answers ⟨step, ph⟩ signal)
    (hS : ph = .created → step.skipped setup.parse sh.ctx = true → S) (h : StepTurn setup step signal ph sh ph' sh')
    (hph : ph.Maps setup step answers S sh) : ph'.Maps setup step answers S sh' := by
  cases h with
  | skip hsk => exact .inl ⟨hS rfl hsk, hph.congr (mem_note_mapped fun _ heq => by cases heq)⟩
  | start _ => exact hph
  | acquire => exact hph
  | @scatter coll' input _ _ =>
    refine ⟨DagStep.mapItems coll' input sh.ctx, fun items' => ?_, positioned_mapPool⟩
    have hu : .mapped step.stepName items' ∉ sh.trace := hph items'
    simp [hu]
  | connect hno _ =>
    rw [hm] at hno
    cases hno
  | pass hn _ _ =>
    rw [hn.1] at hm
    cases hm
  | call hn _ =>
    rw [hn.1] at hm
    cases hm
  | again | retry _ | answer _ _ => exact absurd hph id
  | @item coll' input pool pool' i s _ _ ht =>
    obtain ⟨items, hr, hp⟩ := hph
    obtain ⟨t, t', -, hon, -⟩ := Crew.turn_tasks ht
    refine ⟨items, hr.congr (mem_item_mapped hon), positioned_turn ht ?_ hp⟩
    intro outcome hs
    exact ha coll' input pool i outcome rfl rfl (by rw [hs])
  | @gathered coll' input pool _ _ _ hal ho =>
    obtain ⟨items, hr, hp⟩ := hph
    rw [positioned_gathered hp hal] at ho
    have hc := concluded_leave ho fun v hv => collect_obj hv
    have hr' := hr.congr (mem_leave_mapped ho)
    rcases leave_cases ho with ⟨e, -, rfl, -⟩ | ⟨result, ctx, -, -, ⟨-, rfl, -⟩ | ⟨-, rfl, -⟩⟩
    · exact .inr ⟨items, hr', hc⟩
    · exact ⟨items, hr', hc⟩
    · exact .inr ⟨items, hr', hc⟩
  | streamGo _ | streamLeave _ _ => exact absurd hph id
  | @saved result outcome _ =>
    obtain ⟨items, hr, hc⟩ := hph
    exact .inr ⟨items, hr.congr (mem_note_mapped fun _ heq => by cases heq), hc.saved outcome _⟩

theorem Phase.Maps.other (h : ph.Maps setup step answers S sh)
    (ht : ∀ items', .mapped step.stepName items' ∈ sh'.trace ↔ .mapped step.stepName items' ∈ sh.trace)
    (hre : sh'.ctx.stepResults.lookup step.stepName = sh.ctx.stepResults.lookup step.stepName) :
    ph.Maps setup step answers S sh' := by
  cases ph with
  | mapping coll input pool =>
    obtain ⟨items, hr, hp⟩ := h
    exact ⟨items, hr.congr ht, hp⟩
  | saving v =>
    obtain ⟨items, hr, hc⟩ := h
    exact ⟨items, hr.congr ht, hc.congr hre⟩
  | ended o =>
    rcases h with ⟨hS, hu⟩ | ⟨items, hr, hc⟩
    · exact .inl ⟨hS, hu.congr ht⟩
    · exact .inr ⟨items, hr.congr ht, hc.congr hre⟩
  | calling _ _ | sleeping _ _ | streaming _ _ _ => exact h
  | _ => exact Unread.congr ht h

theorem reaches_maps {dag : DagDefinition} {initial : JsonObj} {r : DagRun}
    (hm : step.mapKey = some coll) (h : setup.Reaches (ItemsFrom step answers) dag initial r) :
    ∀ t ∈ r.all (setup.engine dag.steps), t.step = step → t.phase.Maps setup step answers
      (setup.SkippedBefore (ItemsFrom step answers) dag initial step r) r.shared := by
  refine reaches_tasks_at (P := fun t sh => t.step = step → t.phase.Maps setup step answers _ sh) h ?_ ?_ ?_
  · exact fun ctx _ s _ _ items => not_mem_nil
  · rintro s signal _ ph ph' sh' hs hme ha hP ht rfl
    refine ht.maps hm ha ?_ (hP rfl)
    rintro rfl hsk
    exact ⟨s, hs, hme, hsk⟩
  · rintro s signal _ ph ph' sh' u - - - - - hne hPu ht rfl
    obtain ⟨events, htr, hr, -⟩ := ht.tellsAll
    refine (hPu rfl).other (fun items' => ?_) (ht.fields.2.2.1 _ hne)
    rw [htr, mem_append]
    exact or_iff_left fun hme => hne (hr _ hme)

theorem StepTurn.ctx_map_raised {e : PyErr} (hra : step.collect (step.gatheredItems answers items) = .error e) (hr : .mapped step.stepName items ∈ sh.trace)
    (hph : ph.Maps setup step answers S sh) (h : StepTurn setup step signal ph sh ph' sh') : sh'.ctx = sh.ctx := by
  cases h with
  | skip _ | pass _ _ _ => exact absurd hr (hph items)
  | answer _ _ => exact absurd hph id
  | item ht =>
    obtain ⟨t, t', -, hon, -⟩ := Crew.turn_tasks ht
    exact ctx_mapOne hon
  | gathered ha ho =>
    obtain ⟨items', hre, hp⟩ := hph
    obtain rfl := (hre items).mp hr
    rw [positioned_gathered hp ha, hra] at ho
    obtain ⟨-, rfl⟩ := Prod.mk.inj ho
    rfl
  | streamGo _ | streamLeave _ _ => exact absurd hph id
  | _ => rfl

end

/-- A MAP step whose items are answered with a given sequence, at every moment of a run. No more than
`max_concurrency` (16 when 0) of its items are in dispatch. Once it has left the semaphore, its condition
has skipped it or it has read its items: under `CONTINUE`, and under `ABORT_ALL` without a failing item, the result lists the values
or error markers of the items in their order; with a failing item `ABORT_ALL` follows `on_failure`. -/
theorem map_results_positional (setup : DagSetup) (dag : DagDefinition) (initial : JsonObj)
    (step : DagStep) (coll : String) (hmap : step.mapKey = some coll) (answers : ℕ → Except PyErr JsonValue)
    (ho : ∀ i e, answers i = .error e → e.isException = true) (r : DagRun)
    (h : setup.Reaches (ItemsFrom step answers) dag initial r) (t : StepTask)
    (ht : t ∈ r.all (setup.engine dag.steps)) (hstep : t.step = step) :
    (∀ coll' input pool, t.phase = .mapping coll' input pool →
      pool.tasks.countP (fun item => item.state = .calling) ≤
        if step.maxConcurrency = 0 then 16 else step.maxConcurrency) ∧
    (((∃ v, t.phase = .saving v) ∨ ∃ o, t.phase = .ended o) →
      setup.SkippedBefore (ItemsFrom step answers) dag initial step r ∧ Unread step r.shared.trace ∨
      ∃ items, Reads step r.shared.trace items ∧
      (step.mapErrorPolicy = MapErrorPolicy.continue ∨ (∀ i < items.length, ∃ v, answers i = .ok v) →
        ∃ entries, r.shared.ctx.stepResults.lookup step.stepName = some (.obj [("results", .arr entries)]) ∧
          entries.length = items.length ∧ ∀ i < items.length,
            (∀ v, answers i = .ok v → entries[i]? = some v) ∧
            ∀ e, answers i = .error e → entries[i]? = some (DagStep.errorMark i e)) ∧
      (step.mapErrorPolicy = .abortAll → (∃ i < items.length, ∃ e, answers i = .error e) →
        (∀ f, step.onFailure = .fallback → step.fallback = some f → r.shared.ctx.stepResults.lookup step.stepName =
          some (.obj (f.outputMapping.entries.map fun e => (e.1, .str e.2)))) ∧
        (step.onFailure = .skip → r.shared.ctx.stepResults.lookup step.stepName = some (.obj [])) ∧
        (step.onFailure = .abort ∨ step.onFailure = .fallback ∧ step.fallback = none →
          (∃ i < items.length, ∃ e, answers i = .error e ∧ t.phase = .ended (.error e)) ∧
          ∀ r' signal t₀ t' sh', setup.Reaches (ItemsFrom step answers) dag initial r' →
            t₀ ∈ r'.all (setup.engine dag.steps) → t₀.step = step → .mapped step.stepName items ∈ r'.shared.trace →
            setup.resume signal t₀ r'.shared = some (t', sh') → sh'.ctx = r'.shared.ctx))) := by
  constructor
  · intro coll' input pool hph
    have hca := reaches_capacity h t ht
    rw [hph, hstep] at hca
    have hh : (step.mapCrew coll' input).held pool = pool.tasks.countP fun item => item.state = .calling := rfl
    change pool.free + (step.mapCrew coll' input).held pool = step.mapLimit at hca
    rw [← hh, ← DagStep.mapLimit]
    omega
  · intro hl
    have hcase : setup.SkippedBefore (ItemsFrom step answers) dag initial step r ∧ Unread step r.shared.trace ∨
        ∃ items, Reads step r.shared.trace items ∧
          Concluded setup step (step.collect (step.gatheredItems answers items)) r.shared t.phase := by
      have hm := reaches_maps hmap h t ht hstep
      rcases hl with ⟨v, hv⟩ | ⟨o, hv⟩
      · rw [hv] at hm ⊢
        exact .inr hm
      · rw [hv] at hm ⊢
        exact hm
    refine hcase.imp_right ?_
    rintro ⟨items, hr, hc⟩
    refine ⟨items, hr, ?_⟩
    constructor
    · intro hw
      have hen : ∀ i < items.length, step.itemResult i (answers i) = .ok (DagStep.mapEntry i (answers i)) := by
        intro i hi
        cases ha : answers i with
        | ok v => rfl
        | error e =>
          rcases hw with hcon | hva
          · simp [DagStep.itemResult, hcon, ho i e ha, DagStep.mapEntry]
          · obtain ⟨v, hv⟩ := hva i hi
            rw [ha] at hv
            cases hv
      refine ⟨_, (hc.recorded _ (step.collect_entries hen)).1, by simp, fun i hi => ⟨fun v hv => ?_, fun e he => ?_⟩⟩
      · simp [hi, hv, DagStep.mapEntry]
      · simp [hi, he, DagStep.mapEntry]
    · rintro hab ⟨i, hi, e, he⟩
      obtain ⟨j, hj, e', he', hco⟩ := step.collect_failed hab hi he ho
      rw [hco] at hc
      refine ⟨fun f hfa hf => ?_, fun hs => ?_, fun hp => ⟨⟨j, hj, e', he', ?_⟩, ?_⟩⟩
      · exact (hc.recorded _ (by rw [DagStep.resolve, hfa, hf])).1
      · exact (hc.recorded _ (by rw [DagStep.resolve, hs])).1
      · exact hc.raised e' (resolve_raises hp e')
      · rintro r' signal ⟨_, ph⟩ ⟨_, ph'⟩ sh' hrea hme rfl hr' hres
        obtain ⟨-, htu⟩ := resume_eq_some hres
        have hra := hco.trans (resolve_raises hp e')
        exact htu.ctx_map_raised hra hr' (reaches_maps hmap hrea _ hme rfl)

def mappedStep : DagStep :=
  { stepName := "m", capability := "gpu", stepKind := .map, mapOver := some "xs", mapErrorPolicy := MapErrorPolicy.continue }

def mappedRun : Option DagRun :=
  DagSetup.after {} { dagId := "d", steps := [mappedStep] } [("xs", .arr [.str "x", .str "y"])]
    [.turn 0 .go, .turn 0 .go, .turn 0 .go, .turn 0 (.item 0 .go), .turn 0 (.item 1 .go),
      .turn 0 (.item 1 (.reply (.error (.timeoutError "late")))), .turn 0 (.item 0 (.reply (.ok (.num 1)))), .turn 0 .go]

theorem map_results_positional_pair : ∃ r entries, mappedRun = some r ∧
    r.shared.ctx.stepResults.lookup "m" = some (.obj [("results", .arr entries)]) ∧ entries.length = 2 ∧
    entries[0]? = some (.num 1) ∧ entries[1]? = some (DagStep.errorMark 1 (.timeoutError "late")) := by
  let answers : ℕ → Except PyErr JsonValue := fun i => if i = 0 then .ok (.num 1) else .error (.timeoutError "late")
  have hru : mappedRun.map (fun r => (r.pool.tasks.map (fun t => (t.step, t.phase.isEnded)),
      r.shared.trace.head?)) = some ([(mappedStep, true)], some (.mapped "m" [.str "x", .str "y"])) := by
    decide +kernel
  obtain ⟨r, hr, hv⟩ := Option.map_eq_some_iff.mp hru
  obtain ⟨hta, hrea⟩ := Prod.mk.inj hv
  obtain ⟨t, ht, hv⟩ := List.mem_map.mp (hta ▸ List.mem_singleton.mpr rfl)
  obtain ⟨hs, hend⟩ := Prod.mk.inj hv
  have hre : DagSetup.Reaches {} (ItemsFrom mappedStep answers) { dagId := "d", steps := [mappedStep] }
      [("xs", .arr [.str "x", .str "y"])] r := by
    refine reaches_of_after hr fun j i t hm coll input pool k outcome _ _ hi => ?_
    subst hi
    simp only [List.mem_cons, ForkJoin.Move.turn.injEq, reduceCtorEq, and_false, Signal.item.injEq,
      ItemSignal.reply.injEq, List.not_mem_nil, or_false, false_or] at hm
    rcases hm with ⟨-, rfl, rfl⟩ | ⟨-, rfl, rfl⟩ <;> rfl
  have ho : ∀ i e, answers i = .error e → e.isException = true := by
    intro i e he
    simp only [answers] at he
    split at he
    · cases he
    · cases he
      rfl
  obtain ⟨⟨_, -, -, hsk⟩, -⟩ | ⟨items, hread, hres, -⟩ := (map_results_positional {} _ _ mappedStep "xs" rfl answers ho r
    hre t (by simp [ForkJoin.State.all, ht]) hs).2 (.inr (Phase.exists_of_isEnded hend))
  · -- The step has no condition
    cases hsk
  · obtain rfl := (hread _).mp (List.mem_of_mem_head? hrea)
    obtain ⟨entries, hres, hl, hen⟩ := hres (.inl rfl)
    exact ⟨r, entries, hr, hres, hl, (hen 0 (by decide)).1 _ rfl, (hen 1 (by decide)).2 _ rfl⟩

end AsyncScheduler
