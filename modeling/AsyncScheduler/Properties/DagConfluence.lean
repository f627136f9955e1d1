import AsyncScheduler.Properties.DagMeaning

/-!
# Runs follow the meaning

When the answers are a function of the calls and the steps of each wave are independent, every run
of `execute` leads to the meaning of the DAG, whatever the interleaving and the limit of the
semaphore: at each moment a step of the current wave stands where its fate, decided at the beginning
of the wave, says, and what the others have written is not what it reads.
-/

namespace AsyncScheduler
open List

open DagEngine (names stepNamed topoSort)

/-- Dispatch calls and saves are answered by functions. -/
structure Deterministic (env : Answers) (saves : DagStep → Except PyErr Unit) (t : StepTask) (signal : Signal) :
    Prop where
  call : ∀ input n outcome, t.phase = .calling input n → signal = .reply outcome → outcome = env (t.step.request input)
  item : ∀ coll input pool i item outcome, t.phase = .mapping coll input pool → pool.tasks[i]? = some item →
    signal = .item i (.reply outcome) → outcome = env (t.step.itemCall coll input item.index item.item)
  save : ∀ v outcome, t.phase = .saving v → signal = .saved outcome → outcome = saves t.step

def DagStep.Independent (parse : String → Option Expr) (s other : DagStep) : Prop :=
  (∀ k ∈ s.contextReads parse, k ∉ other.outputMapping.keys) ∧ other.stepName ∉ s.inputMapping.sources ∧
    ∀ k ∈ s.outputMapping.keys, k ∉ other.outputMapping.keys

instance (parse : String → Option Expr) (s other : DagStep) : Decidable (s.Independent parse other) :=
  inferInstanceAs (Decidable (_ ∧ _))

/-- A step that has not written anything yet, in a context where nothing it reads has changed. -/
structure Unaffected (parse : String → Option Expr) (step : DagStep) (c d : DagContext) : Prop where
  reads : ReadsAlike parse step c d
  own : OwnAlike step c d

/-- The step has passed its condition and built its input. -/
structure Entered (parse : String → Option Expr) (step : DagStep) (c : DagContext) (input : JsonObj) :
    Prop where
  runs : step.skipped parse c = false
  built : input = step.buildInput c

def DagStep.itemAnswers (step : DagStep) (env : Answers) (coll : String) (input : JsonObj)
    (items : List JsonValue) (i : ℕ) : Except PyErr JsonValue :=
  env (step.itemCall coll input i (items[i]?.getD .null))

/-- A step stands where its fate in the context `c` says. -/
def Phase.Follows (setup : DagSetup) (env : Answers) (saves : DagStep → Except PyErr Unit) (step : DagStep)
    (c d : DagContext) : Phase → Prop
  | .created => Unaffected setup.parse step c d
  | .waiting input | .inside input => Unaffected setup.parse step c d ∧ Entered setup.parse step c input
  | .calling input _ | .sleeping input _ =>
      Unaffected setup.parse step c d ∧ Entered setup.parse step c input ∧ step.mapKey = none ∧ step.attempts ≠ 0
  | .mapping coll input pool =>
      Unaffected setup.parse step c d ∧ Entered setup.parse step c input ∧ step.mapKey = some coll ∧
        Positioned step (step.itemAnswers env coll input (DagStep.mapItems coll input c))
          (DagStep.mapItems coll input c) pool
  | .streaming _ _ _ => False
  | .saving v => setup.hasStore = true ∧ step.fate setup.parse env c = .record v ∧
      OwnAlike step ((step.fate setup.parse env c).apply step c) d
  | .ended o => o = (step.fate setup.parse env c).outcome setup.hasStore saves step ∧
      OwnAlike step ((step.fate setup.parse env c).apply step c) d

variable {setup : DagSetup} {env : Answers} {saves : DagStep → Except PyErr Unit} {step : DagStep} {c : DagContext}
  {signal : Signal} {ph ph' : Phase} {sh sh' : DagShared}

section
variable {input : JsonObj}

theorem fate_skip (h : step.skipped setup.parse c = true) : step.fate setup.parse env c = .skip := by
  rw [DagStep.fate, if_pos h]

theorem fate_error (he : Entered setup.parse step c input) {e : PyErr} (h : step.work env input c = .error e ∨
      ∃ result, step.work env input c = .ok result ∧ step.record result c = .error e) :
    step.fate setup.parse env c = .raise e := by
  obtain ⟨hru, rfl⟩ := he
  rw [DagStep.fate, hru, if_neg Bool.false_ne_true]
  rcases h with h | ⟨result, h, hr⟩
  · rw [h]
  · simp only [h, hr]

theorem fate_record (he : Entered setup.parse step c input)
    {result : JsonValue} {c' : DagContext} (h : step.work env input c = .ok result)
    (hr : step.record result c = .ok c') : step.fate setup.parse env c = .record result := by
  obtain ⟨hru, rfl⟩ := he
  rw [DagStep.fate, hru, if_neg Bool.false_ne_true]
  simp only [h, hr]

theorem follows_leave (h : setup.leave step (step.work env input c) sh = (ph', sh'))
    (hen : Entered setup.parse step c input) (ho : OwnAlike step c sh.ctx) :
    ph'.Follows setup env saves step c sh'.ctx := by
  rcases leave_cases h with ⟨e, hwh, rfl, rfl⟩ | ⟨result, ctx, hw, hr, hca⟩
  · have hf : step.fate setup.parse env c = .raise e := by
      refine fate_error hen (hwh.imp_right ?_)
      rintro ⟨result, hw, hr⟩
      refine ⟨result, hw, ?_⟩
      rcases record_alike step result c sh.ctx with ⟨e', he, he'⟩ | ⟨_, _, _, hd, -⟩
      · rw [he'] at hr
        rw [he, Except.error.inj hr]
      · rw [hd] at hr
        cases hr
    refine ⟨?_, ?_⟩
    · rw [hf]
      rfl
    · rw [hf]
      exact ho
  · rcases record_alike step result c sh.ctx with ⟨e', -, he'⟩ | ⟨c', d', hc, hd, hal⟩
    · rw [he'] at hr
      cases hr
    · rw [hd] at hr
      obtain rfl := Except.ok.inj hr
      have hf := fate_record hen hw hc
      have ha : OwnAlike step ((step.fate setup.parse env c).apply step c) d' := by
        rw [hf]
        simp only [Fate.apply, hc]
        exact hal ho
      rcases hca with ⟨hs, rfl, rfl⟩ | ⟨hs, rfl, rfl⟩
      · exact ⟨hs, hf, ha⟩
      · refine ⟨?_, ha⟩
        rw [hf, Fate.outcome, hs]
        rfl

/-- A turn of a step does what the fate of the step in the context of its wave says. -/
theorem StepTurn.follows (h : StepTurn setup step signal ph sh ph' sh') (ha : Deterministic env saves ⟨step, ph⟩ signal)
    (htr : step.trigger = none) (hph : ph.Follows setup env saves step c sh.ctx) :
    ph'.Follows setup env saves step c sh'.ctx := by
  cases h with
  | skip hsk =>
    have hfa : step.fate setup.parse env c = .skip := fate_skip ((skipped_congr hph.reads).trans hsk)
    refine ⟨?_, ?_⟩
    · rw [hfa]
      rfl
    · rw [hfa]
      exact Fate.skip.apply_alike hph.own
  | start hsk => exact ⟨hph, (skipped_congr hph.reads).trans hsk, (buildInput_congr hph.reads).symm⟩
  | acquire => exact hph
  | @scatter coll input _ hm =>
    refine ⟨hph.1, hph.2, hm, ?_⟩
    rw [← mapItems_congr hm hph.1.reads]
    exact positioned_mapPool
  | connect _ hso =>
    rw [htr] at hso
    cases hso
  | @pass input _ _ _ hn hz ho =>
    have hw : step.work env input c = .ok (.obj []) := by
      rw [DagStep.work, hn.1]
      exact if_pos hz
    rw [← hw] at ho
    exact follows_leave ho hph.2 hph.1.own
  | call hn hpos => exact ⟨hph.1, hph.2, hn.1, Nat.pos_iff_ne_zero.mp hpos⟩
  | again => exact hph
  | retry _ => exact hph
  | @answer input n outcome _ _ _ _ ho =>
    obtain ⟨hf, he, hm, hat⟩ := hph
    obtain rfl := ha.call input n outcome rfl rfl
    have hw : step.work env input c = step.conclude (env (step.request input)) := by
      rw [DagStep.work, hm]
      exact if_neg hat
    rw [← hw] at ho
    exact follows_leave ho he hf.own
  | @item coll input pool pool' i s _ _ htu =>
    obtain ⟨hf, he, hm, hp⟩ := hph
    obtain ⟨t, t', ht, hon, -⟩ := Crew.turn_tasks htu
    rw [ctx_mapOne hon]
    refine ⟨hf, he, hm, positioned_turn htu (fun outcome hs => ?_) hp⟩
    obtain ⟨hi, hit, -⟩ := hp.2 i t ht
    rw [ha.item coll input pool i t outcome rfl ht (by rw [hs]), DagStep.itemAnswers, hit, hi]
    rfl
  | @gathered coll input pool _ _ _ hal ho =>
    obtain ⟨hf, he, hm, hp⟩ := hph
    have hw : step.work env input c = step.collect pool.tasks := by
      rw [DagStep.work, hm, positioned_gathered hp hal]
      rfl
    rw [← hw] at ho
    exact follows_leave ho he hf.own
  | streamGo _ | streamLeave _ _ => exact absurd hph id
  | @saved result outcome _ =>
    obtain ⟨hst, hfa, how⟩ := hph
    refine ⟨?_, how⟩
    rw [ha.save result outcome rfl rfl, hfa, Fate.outcome, hst]
    rfl

theorem Phase.Follows.wired (h : ph.Follows setup env saves step c sh.ctx) : ph.Wired step := by
  cases ph with
  | streaming _ _ _ => exact absurd h id
  | _ => trivial

theorem Phase.Follows.congr {d d' : DagContext} (h : ph.Follows setup env saves step c d)
    (hr : ReadsAlike setup.parse step d d') (ho : OwnAlike step d d') :
    ph.Follows setup env saves step c d' := by
  have hfr : Unaffected setup.parse step c d → Unaffected setup.parse step c d' := fun hf =>
    ⟨hf.reads.trans hr, hf.own.trans ho⟩
  cases ph with
  | created => exact hfr h
  | waiting _ | inside _ | calling _ _ | sleeping _ _ | mapping _ _ _ => exact ⟨hfr h.1, h.2⟩
  | streaming _ _ _ => exact h
  | saving v => exact ⟨h.1, h.2.1, h.2.2.trans ho⟩
  | ended o => exact ⟨h.1, h.2.trans ho⟩

theorem written_eq (h : step.trigger = none) : step.written = step.outputMapping.keys := by
  simp [DagStep.written, h]

theorem StepTurn.independent {other : DagStep} (h : StepTurn setup step signal ph sh ph' sh') (hw : ph.Wired step)
    (ht : step.trigger = none) (hn : other.stepName ≠ step.stepName)
    (hin : other.Independent setup.parse step) :
    ReadsAlike setup.parse other sh.ctx sh'.ctx ∧ OwnAlike other sh.ctx sh'.ctx := by
  obtain ⟨hi, -, hr, hco⟩ := h.fields
  have hc : ∀ k, k ∉ step.outputMapping.keys → sh.ctx.context.lookup k = sh'.ctx.context.lookup k := by
    intro k hk
    rw [← written_eq ht] at hk
    exact (h.context_other hw hk).symm
  obtain ⟨hre, hs, hwr⟩ := hin
  refine ⟨⟨hi.symm, fun k hk => hc k (hre k hk), fun k hk => (hr k ?_).symm⟩,
    fun k hk => hc k (hwr k hk), (hr _ hn).symm, ?_⟩
  · rintro rfl
    exact hs hk
  · rcases hco with heq | heq
    · rw [heq]
    · rw [heq, mem_append, mem_singleton]
      exact (or_iff_left hn).symm

end

/-- The tasks of a wave follow the fates of its steps in the context `c` it began with. -/
structure WaveRuns (setup : DagSetup) (env : Answers) (saves : DagStep → Except PyErr Unit) (wave : List DagStep)
    (c : DagContext) (tasks : List StepTask) (d : DagContext) : Prop where
  steps : tasks.map StepTask.step = wave
  tasks : ∀ t ∈ tasks, t.phase.Follows setup env saves t.step c d
  outside : OutsideAlike wave c d

variable {wave : List DagStep}

theorem waveRuns_start (setup : DagSetup) (env : Answers) (saves : DagStep → Except PyErr Unit) (wave : List DagStep)
    (c : DagContext) : WaveRuns setup env saves wave c (wave.map fun s => ⟨s, .created⟩) c := by
  refine ⟨by simp [Function.comp_def], fun t ht => ?_, .refl wave c⟩
  obtain ⟨s, -, rfl⟩ := mem_map.mp ht
  exact ⟨.refl setup.parse s c, .refl s c⟩

theorem WaveRuns.turn {before after : List StepTask} {t t' : StepTask} {signal : Signal} {sh sh' : DagShared}
    (h : WaveRuns setup env saves wave c (before ++ t :: after) sh.ctx) (hres : setup.resume signal t sh = some (t', sh'))
    (ha : Deterministic env saves t signal) (htr : t.step.trigger = none)
    (ho : ∀ u ∈ before ++ after, u.step.stepName ≠ t.step.stepName ∧ u.step.Independent setup.parse t.step) :
    WaveRuns setup env saves wave c (before ++ t' :: after) sh'.ctx := by
  obtain ⟨hs, ht⟩ := resume_eq_some hres
  have hf := h.tasks t (by simp)
  have hw := hf.wired
  have hm : t.step ∈ wave := by
    rw [← h.steps]
    simp
  refine ⟨?_, fun u hu => ?_, h.outside.trans ?_⟩
  · rw [← h.steps]
    simp [hs]
  · have hc : u = t' ∨ u ∈ before ++ after := by
      simp only [mem_append, mem_cons] at hu ⊢
      tauto
    rcases hc with rfl | hu
    · rw [hs]
      exact ht.follows ha htr hf
    · obtain ⟨hna, hin⟩ := ho u hu
      obtain ⟨hr, how⟩ := ht.independent hw htr hna hin
      refine (h.tasks u ?_).congr hr how
      simp only [mem_append, mem_cons] at hu ⊢
      tauto
  · obtain ⟨hi, -, hre, hco⟩ := ht.fields
    refine ⟨hi.symm, fun k hk => ?_, fun n hn => (hre n (hn t.step hm)).symm, fun n hn => ?_⟩
    · refine (ht.context_other hw ?_).symm
      rw [written_eq htr]
      exact hk t.step hm
    · rcases hco with heq | heq
      · rw [heq]
      · rw [heq, mem_append, mem_singleton]
        exact (or_iff_left (hn t.step hm)).symm

theorem WaveRuns.effect {tasks : List StepTask} {d : DagContext} (h : WaveRuns setup env saves wave c tasks d)
    (hen : ∀ t ∈ tasks, t.phase.isEnded = true) :
    WaveEffect setup.parse env wave c d ∧
      ((∃ t ∈ tasks, DagSetup.stops t = true) ↔ Halts setup.parse setup.hasStore env saves wave c) := by
  have hou : ∀ t ∈ tasks, t.phase = .ended ((t.step.fate setup.parse env c).outcome setup.hasStore saves t.step) ∧
      OwnAlike t.step ((t.step.fate setup.parse env c).apply t.step c) d := by
    intro t ht
    obtain ⟨o, ho⟩ := Phase.exists_of_isEnded (hen t ht)
    have hf := h.tasks t ht
    rw [ho] at hf ⊢
    rw [← hf.1]
    exact ⟨rfl, hf.2⟩
  have hm : ∀ s ∈ wave, ∃ t ∈ tasks, t.step = s := by
    intro s hs
    rw [← h.steps] at hs
    exact mem_map.mp hs
  refine ⟨⟨fun s hs => ?_, h.outside⟩, ?_, ?_⟩
  · obtain ⟨t, ht, rfl⟩ := hm s hs
    exact (hou t ht).2
  · rintro ⟨t, ht, hst⟩
    refine ⟨t.step, h.steps ▸ mem_map_of_mem ht, ?_⟩
    rw [DagSetup.stops, (hou t ht).1] at hst
    split at hst
    · next e heq =>
      rw [Bool.and_eq_true, decide_eq_true_eq] at hst
      exact ⟨e, Phase.ended.inj heq, hst⟩
    · cases hst
  · rintro ⟨s, hs, e, he, hex, ha⟩
    obtain ⟨t, ht, rfl⟩ := hm s hs
    refine ⟨t, ht, ?_⟩
    simp [DagSetup.stops, (hou t ht).1, he, hex, ha]

/-- Where a run stands: inside a wave, or at the end of the meaning. -/
structure FollowsMeaning (setup : DagSetup) (env : Answers) (saves : DagStep → Except PyErr Unit) (steps : List DagStep)
    (start : DagContext) (s : DagRun) : Prop where
  running : s.verdict = none → ∃ wave c, wave ∈ topoSort steps ∧
    WaveRuns setup env saves (waveSteps steps wave) c s.pool.tasks s.shared.ctx ∧
    (∀ w ∈ s.todo, w ∈ topoSort steps) ∧
    ∀ d b, Meaning setup.parse setup.hasStore env saves steps c (wave :: s.todo) d b →
      Meaning setup.parse setup.hasStore env saves steps start (topoSort steps) d b
  finished : ∀ b, s.verdict = some b →
    Meaning setup.parse setup.hasStore env saves steps start (topoSort steps) s.shared.ctx b

variable {dag : DagDefinition} {initial : JsonObj} {start : DagContext}

theorem mem_waveSteps {steps : List DagStep} {wave : List String} {s : DagStep} (h : s ∈ waveSteps steps wave) :
    s ∈ steps ∧ s.stepName ∈ wave := by
  obtain ⟨name, hn, hs⟩ := mem_filterMap.mp h
  obtain ⟨hm, rfl⟩ := DagEngine.stepNamed_mem hs
  exact ⟨hm, hn⟩

theorem followsMeaning_start (steps : List DagStep) (limit : Nat) (shared : DagShared) :
    FollowsMeaning setup env saves steps shared.ctx ((setup.engine steps).start shared limit (topoSort steps)) := by
  cases ho : topoSort steps with
  | nil =>
    refine ⟨fun hn => (by cases hn), fun b hb => ?_⟩
    obtain rfl := Option.some.inj hb
    rw [ho]
    exact .finished
  | cons w rest =>
    refine ⟨fun _ => ⟨w, shared.ctx, ?_, waveRuns_start setup env saves (waveSteps steps w) shared.ctx, ?_, ?_⟩,
      fun b hb => (by cases hb)⟩
    · rw [ho]
      exact mem_cons_self
    · intro v hv
      rw [ho]
      exact mem_cons_of_mem w hv
    · intro d b hm
      rw [ho]
      exact hm

/-- Every move keeps a run on the way that the meaning of its waves prescribes. -/
theorem FollowsMeaning.next {A : StepTask → Signal → Prop} {s s' : DagRun}
    (h : FollowsMeaning setup env saves dag.steps start s) (hA : ∀ t signal, A t signal → Deterministic env saves t signal)
    (htr : ∀ s ∈ dag.steps, s.trigger = none)
    (hi : ∀ w ∈ topoSort dag.steps, ∀ s ∈ dag.steps, ∀ s' ∈ dag.steps, s.stepName ∈ w → s'.stepName ∈ w → s ≠ s' →
      s.Independent setup.parse s')
    (hs : setup.Reaches A dag initial s) (hne : (setup.engine dag.steps).Next A s s') :
    FollowsMeaning setup env saves dag.steps start s' := by
  have hd := nodup_all hs
  rcases ForkJoin.next_cases hne with ⟨j, signal, t, t', before, after, shared, ha, hta, hre, -, ht', heq⟩ |
      ⟨hnon, hen, rfl⟩
  · have hme : t ∈ s.pool.tasks := by simp [hta]
    have hve : s.verdict = none := by
      cases hv : s.verdict with
      | none => rfl
      | some b =>
        have hend := (reaches_judged hs b hv).1 t hme
        rw [engine_fair.final signal t s.shared hend] at hre
        cases hre
    obtain ⟨wave, c, hw, hr, hto, hm⟩ := h.running hve
    have hsh : s'.shared = shared := by rw [heq]
    have hst : ∀ u ∈ s.pool.tasks, u.step ∈ dag.steps ∧ u.step.stepName ∈ wave := by
      intro u hu
      exact mem_waveSteps (hr.steps ▸ mem_map_of_mem hu)
    have ho : ∀ u ∈ before ++ after, u.step.stepName ≠ t.step.stepName ∧
        u.step.Independent setup.parse t.step := by
      intro u hu
      have hn : u.step.stepName ≠ t.step.stepName := by
        have hp : (s.pool.tasks.map fun t => t.step.stepName).Nodup := by
          refine hd.sublist (List.Sublist.map _ ?_)
          exact (sublist_append_right s.past s.pool.tasks).trans (sublist_append_left _ _)
        rw [hta, map_append, map_cons] at hp
        have hou := (nodup_cons.mp (perm_middle.nodup_iff.mp hp)).1
        intro hsa
        refine hou ?_
        rw [← map_append, ← hsa]
        exact mem_map_of_mem hu
      have hu' : u ∈ s.pool.tasks := by
        rw [hta]
        simp only [mem_append, mem_cons] at hu ⊢
        tauto
      refine ⟨hn, hi wave hw u.step (hst u hu').1 t.step (hst t hme).1 (hst u hu').2 (hst t hme).2 ?_⟩
      exact fun heq => hn (congrArg DagStep.stepName heq)
    refine ⟨fun _ => ⟨wave, c, hw, ?_, ?_, ?_⟩, fun b hb => ?_⟩
    · rw [hsh, ht']
      rw [hta] at hr
      exact hr.turn hre (hA t signal ha) (htr t.step (hst t hme).1) ho
    · rw [heq]
      exact hto
    · rw [heq]
      exact hm
    · rw [heq] at hb
      rw [hve] at hb
      cases hb
  · obtain ⟨wave, c, hw, hr, hto, hm⟩ := h.running hnon
    obtain ⟨he, hh⟩ := hr.effect hen
    have hc : (∀ t ∈ s.pool.tasks, DagSetup.stops t = false) →
        ¬ Halts setup.parse setup.hasStore env saves (waveSteps dag.steps wave) c := by
      rw [← hh]
      rintro hgo ⟨t, ht, hsto⟩
      rw [hgo t ht] at hsto
      cases hsto
    rcases ForkJoin.gather_cases (setup.engine dag.steps) s with ⟨hsto, heq⟩ | ⟨hgo, ⟨hl, heq⟩ | ⟨w, rest, hmo, heq⟩⟩
    · rw [heq]
      refine ⟨fun hno => (by cases hno), fun b hb => ?_⟩
      obtain rfl := Option.some.inj hb
      exact hm _ _ (.halted he (hh.mp hsto))
    · rw [heq]
      refine ⟨fun hno => (by cases hno), fun b hb => ?_⟩
      obtain rfl := Option.some.inj hb
      refine hm _ _ (.further he (hc hgo) ?_)
      rw [hl]
      exact .finished
    · rw [heq]
      refine ⟨fun _ => ⟨w, s.shared.ctx, ?_, waveRuns_start setup env saves _ _, ?_, ?_⟩, fun b hb => ?_⟩
      · exact hto w (hmo ▸ mem_cons_self)
      · intro v hv
        exact hto v (hmo ▸ mem_cons_of_mem w hv)
      · intro d b hres
        refine hm d b (.further he (hc hgo) ?_)
        rw [hmo]
        exact hres
      · have hn' : s.verdict = some b := hb
        rw [hnon] at hn'
        cases hn'

/-- Every run with deterministic answers follows the meaning of the waves. -/
theorem reaches_meaning {r : DagRun} (h : setup.Reaches (Deterministic env saves) dag initial r)
    (ht : ∀ s ∈ dag.steps, s.trigger = none)
    (hi : ∀ w ∈ topoSort dag.steps, ∀ s ∈ dag.steps, ∀ s' ∈ dag.steps, s.stepName ∈ w → s'.stepName ∈ w → s ≠ s' →
      s.Independent setup.parse s') :
    ∃ ctx, dag.newContext initial = .ok ctx ∧ FollowsMeaning setup env saves dag.steps ctx r := by
  obtain ⟨first, hst, hr⟩ := h
  have hre : ∀ s, (setup.engine dag.steps).Reach (Deterministic env saves) first s →
      setup.Reaches (Deterministic env saves) dag initial s := fun s hs => ⟨first, hst, hs⟩
  obtain ⟨ctx, hc, rfl⟩ := execute_eq_ok hst
  refine ⟨ctx, hc, ?_⟩
  induction hr with
  | refl => exact followsMeaning_start dag.steps _ { ctx }
  | tail hs hn ih => exact ih.next (fun _ _ => id) ht hi (hre _ hs) hn

/-- Two finished runs of a DAG without streaming steps, with the same answers and under any limits of
parallelism, agree in status, context, results and completed steps. -/
theorem runs_confluent (setup : DagSetup) (dag : DagDefinition) (initial : JsonObj) (env : Answers)
    (saves : DagStep → Except PyErr Unit) (hstream : ∀ s ∈ dag.steps, s.stepKind ≠ .streaming)
    (hind : ∀ w ∈ topoSort dag.steps, ∀ s ∈ dag.steps, ∀ s' ∈ dag.steps, s.stepName ∈ w → s'.stepName ∈ w → s ≠ s' →
      s.Independent setup.parse s') (parallel parallel' : Int) (concurrent concurrent' : Option Int) (r r' : DagRun)
    (h : { setup with maxParallelism := parallel }.Reaches (Deterministic env saves)
      { dag with maxConcurrent := concurrent } initial r)
    (h' : { setup with maxParallelism := parallel' }.Reaches (Deterministic env saves)
      { dag with maxConcurrent := concurrent' } initial r')
    (ctx ctx' : DagContext) (hctx : r.result = some ctx) (hctx' : r'.result = some ctx') :
    ctx.status = ctx'.status ∧ (∀ k, ctx.context.lookup k = ctx'.context.lookup k) ∧
      (∀ n, ctx.stepResults.lookup n = ctx'.stepResults.lookup n) ∧
      ∀ n, n ∈ ctx.completedSteps ↔ n ∈ ctx'.completedSteps := by
  have ht : ∀ s ∈ dag.steps, s.trigger = none := fun s hs => if_neg (hstream s hs)
  obtain ⟨start, hst, hf⟩ := reaches_meaning h ht hind
  obtain ⟨start', hs', hf'⟩ := reaches_meaning h' ht hind
  obtain rfl : start = start' := Except.ok.inj (hst.symm.trans hs')
  obtain ⟨b, hv, rfl⟩ := Option.map_eq_some_iff.mp hctx
  obtain ⟨b', hv', rfl⟩ := Option.map_eq_some_iff.mp hctx'
  obtain ⟨hsa, rfl⟩ := (hf.finished b hv).alike (hf'.finished b' hv')
    ⟨rfl, fun _ => rfl, fun _ => rfl, fun _ => .rfl⟩
  exact ⟨rfl, hsa.context, hsa.results, hsa.completed⟩

def twinDag : DagDefinition :=
  { dagId := "d"
    steps := [{ stepName := "a", capability := "gpu", outputMapping := .single "x" "v" },
      { stepName := "b", capability := "gpu", outputMapping := .single "y" "v" }] }

def overlappingRun : Option DagRun :=
  DagSetup.after { maxParallelism := 2 } twinDag []
    ((oneCall 0 (.ok (.obj [("v", .num 1)]))).take 3 ++ oneCall 1 (.ok (.obj [("v", .num 1)])) ++
      [.turn 0 (.reply (.ok (.obj [("v", .num 1)]))), .gathered])

def serialRun : Option DagRun :=
  DagSetup.after { maxParallelism := 1 } twinDag []
    (oneCall 0 (.ok (.obj [("v", .num 1)])) ++ oneCall 1 (.ok (.obj [("v", .num 1)])) ++ [.gathered])

theorem deterministic_oneCall {setup : DagSetup} {moves : List (ForkJoin.Move Signal)} {r : DagRun} {v : JsonValue}
    (h : setup.after twinDag [] moves = some r)
    (hm : ∀ j signal, .turn j signal ∈ moves → signal = .go ∨ signal = .reply (.ok v)) :
    setup.Reaches (Deterministic (fun _ => .ok v) fun _ => .ok ()) twinDag [] r := by
  refine reaches_of_after h fun j signal t hme => ?_
  rcases hm j signal hme with rfl | rfl
  · exact ⟨fun _ _ _ _ heq => (by cases heq), fun _ _ _ _ _ _ _ _ heq => (by cases heq), fun _ _ _ heq => (by cases heq)⟩
  · exact ⟨fun _ _ _ _ heq => (Signal.reply.inj heq).symm, fun _ _ _ _ _ _ _ _ heq => (by cases heq),
      fun _ _ _ heq => (by cases heq)⟩

theorem runs_confluent_twin : ∃ r r' ctx ctx', overlappingRun = some r ∧ serialRun = some r' ∧
    r.result = some ctx ∧ r'.result = some ctx' ∧ ctx.completedSteps = ["b", "a"] ∧ ctx'.completedSteps = ["a", "b"] ∧
    ∀ k, ctx.context.lookup k = ctx'.context.lookup k := by
  have hru : overlappingRun.map (fun r => r.result.map DagContext.completedSteps) = some (some ["b", "a"]) := by
    decide +kernel
  have hru' : serialRun.map (fun r => r.result.map DagContext.completedSteps) = some (some ["a", "b"]) := by
    decide +kernel
  obtain ⟨r, hr, hres⟩ := Option.map_eq_some_iff.mp hru
  obtain ⟨r', hr', hres'⟩ := Option.map_eq_some_iff.mp hru'
  obtain ⟨ctx, hct, hc⟩ := Option.map_eq_some_iff.mp hres
  obtain ⟨ctx', hct', hc'⟩ := Option.map_eq_some_iff.mp hres'
  have hre := deterministic_oneCall (v := .obj [("v", .num 1)]) hr fun j signal hm => by
    simp [oneCall] at hm
    tauto
  have hre' := deterministic_oneCall (v := .obj [("v", .num 1)]) hr' fun j signal hm => by
    simp [oneCall] at hm
    tauto
  exact ⟨r, r', ctx, ctx', hr, hr', hct, hct', hc, hc',
    (runs_confluent {} twinDag [] _ _ (by decide) (by decide +kernel) 2 1 none none r r' hre hre' ctx ctx' hct
      hct').2.1⟩

end AsyncScheduler
