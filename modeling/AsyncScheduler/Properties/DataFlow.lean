import AsyncScheduler.Properties.DagFrames
import AsyncScheduler.Properties.DagTermination

/-!
# Values between steps

A field of the result of a step goes into the context under the key that its output mapping gives
it, and from there into the input of a later step.
-/

namespace AsyncScheduler
open JsonValue DagSetup List

variable {ctx : DagContext} {p : String} {b : DagStep} {v : JsonValue} {k : String}

open DagEngine (names dependencies topoSort)

/-- The result of a step is recorded when it leaves the semaphore, and then the context holds the
field that is mapped to `k`. -/
def Phase.Gives (a : DagStep) (f k : String) (sh : DagShared) : Phase → Prop
  | .saving _ | .ended _ => ∀ fields v, sh.ctx.stepResults.lookup a.stepName = some (.obj fields) →
      fields.lookup f = some v → sh.ctx.context.lookup k = some v
  | _ => sh.ctx.stepResults.lookup a.stepName = none

variable {setup : DagSetup} {a : DagStep} {f : String} {signal : Signal} {ph ph' : Phase} {sh sh' : DagShared}

theorem gives_of_none {o : Except PyErr JsonValue} (h : sh.ctx.stepResults.lookup a.stepName = none) :
    (Phase.ended o).Gives a f k sh := by
  intro fields v hr
  rw [h] at hr
  cases hr

theorem gives_leave {outcome : Except PyErr JsonValue} (hk : (k, f) ∈ a.outputMapping.entries)
    (h : setup.leave a outcome sh = (ph', sh')) (hn : sh.ctx.stepResults.lookup a.stepName = none) :
    ph'.Gives a f k sh' := by
  rcases leave_cases h with ⟨e, -, rfl, rfl⟩ | ⟨result, ctx, -, hre, hc⟩
  · exact gives_of_none hn
  · obtain ⟨context, hm, rfl⟩ := record_eq_ok hre
    have hg : ∀ fields v, (JsonValue.assign sh.ctx.stepResults a.stepName result).lookup a.stepName =
        some (.obj fields) → fields.lookup f = some v → context.lookup k = some v := by
      intro fields v hr hv
      rw [lookup_assign, if_pos rfl] at hr
      obtain rfl := Option.some.inj hr
      exact mapOutput_mem a.outputMapping.distinct hm hk hv
    rcases hc with ⟨-, rfl, rfl⟩ | ⟨-, rfl, rfl⟩
    · exact hg
    · exact hg

theorem StepTurn.gives (hk : (k, f) ∈ a.outputMapping.entries) (h : StepTurn setup a signal ph sh ph' sh')
    (hph : ph.Gives a f k sh) : ph'.Gives a f k sh' := by
  have hs : ∀ {trigger : StreamingTrigger} {input : JsonObj} {s : StreamSignal}
      {sp : StreamPhase} {turn : StreamTurn}, setup.streamResume a trigger input s sp sh = some turn →
      turn.shared.ctx.stepResults = sh.ctx.stepResults := by
    intro trigger input s sp turn ht
    rcases (streamResume_effect ht).2 with hc | ⟨_, _, ds, _, v, -, hc⟩
    · rw [hc]
    · rw [hc, (accumulate_fields sh.ctx ds v).2.2.1]
  cases h with
  | skip _ => exact gives_of_none hph
  | pass _ _ ho => exact gives_leave hk ho hph
  | answer _ ho => exact gives_leave hk ho hph
  | gathered _ ho => exact gives_leave hk ho hph
  | item ht =>
    obtain ⟨t, t', -, hon, -⟩ := Crew.turn_tasks ht
    change sh'.ctx.stepResults.lookup a.stepName = none
    rw [ctx_mapOne hon]
    exact hph
  | streamGo hgo => exact (congrArg (List.lookup a.stepName) (hs hgo)).trans hph
  | streamLeave hgo ho => exact gives_leave hk ho ((congrArg (List.lookup a.stepName) (hs hgo)).trans hph)
  | _ => exact hph

theorem Phase.Gives.congr (h : ph.Gives a f k sh)
    (hre : sh'.ctx.stepResults.lookup a.stepName = sh.ctx.stepResults.lookup a.stepName)
    (hc : sh'.ctx.context.lookup k = sh.ctx.context.lookup k) : ph.Gives a f k sh' := by
  cases ph with
  | saving _ | ended _ => exact fun fields v hr hv => hc.trans (h fields v (hre ▸ hr) hv)
  | _ => exact hre.trans h

/-- A recorded result stands in the context under the mapped key. -/
theorem reaches_gives {A : StepTask → Signal → Prop} {dag : DagDefinition} {initial : JsonObj}
    {r : DagRun} (hk : (k, f) ∈ a.outputMapping.entries)
    (ha : ∀ c ∈ dag.steps, c.stepName ≠ a.stepName → k ∉ c.written) (h : setup.Reaches A dag initial r) :
    ∀ t ∈ r.all (setup.engine dag.steps), t.step = a → t.phase.Gives a f k r.shared := by
  refine reaches_tasks_at (P := fun t sh => t.step = a → t.phase.Gives a f k sh) h ?_ ?_ ?_
  · intro ctx hc s _ _
    obtain ⟨-, -, hn, -, -⟩ := newContext_eq_ok hc
    change ctx.stepResults.lookup a.stepName = none
    rw [hn]
    rfl
  · rintro s signal step ph ph' sh' _ _ _ hP ht rfl
    exact ht.gives hk (hP rfl)
  · rintro s signal step ph ph' sh' u ⟨hs, -⟩ hm _ _ _ hne hPu ht rfl
    have hal : ⟨step, ph⟩ ∈ s.all (setup.engine dag.steps) := by simp [ForkJoin.State.all, hm]
    refine (hPu rfl).congr (ht.fields.2.2.1 _ hne) (ht.context_other (reaches_wired hs _ hal) ?_)
    exact ha step (step_mem hs _ hal) (Ne.symm hne)

/-- A property of payloads that a step keeps when it adds its own fields. -/
structure Passes (b : DagStep) (Q : JsonObj → Prop) : Prop where
  item : ∀ coll input index item, b.mapKey = some coll → Q input → Q (DagStep.itemPayload coll input index item)
  enriched : ∀ trigger input sh, b.trigger = some trigger → Q input → Q (DagSetup.enriched trigger input sh)
  chunk : ∀ trigger input chunk sh, b.trigger = some trigger → Q input → Q (DagSetup.chunkPayload trigger input chunk sh)

def Phase.Takes (b : DagStep) (Q : JsonObj → Prop) (trace : List DagEvent) : Phase → Prop
  | .created => callsOf b.stepName trace = []
  | .waiting input | .inside input | .calling input _ | .sleeping input _ =>
      Q input ∧ ∀ call ∈ callsOf b.stepName trace, Q call.payload
  | .mapping coll input _ => b.mapKey = some coll ∧ Q input ∧ ∀ call ∈ callsOf b.stepName trace, Q call.payload
  | .streaming trigger input _ => b.trigger = some trigger ∧ Q input ∧
      ∀ call ∈ callsOf b.stepName trace, Q call.payload
  | .saving _ | .ended _ => ∀ call ∈ callsOf b.stepName trace, Q call.payload

variable {Q : JsonObj → Prop}

section
variable {trigger : StreamingTrigger} {input : JsonObj} {s : StreamSignal} {sp : StreamPhase}
  {turn : StreamTurn} {trace : List DagEvent}

theorem streamFeed_calls (setup : DagSetup) (b : DagStep) (trigger : StreamingTrigger) (input : JsonObj) (received : Nat)
    (chunk : JsonValue) (late : Bool) (sh : DagShared) (downs : List String) :
    callsOf b.stepName (setup.streamFeed b trigger input received chunk late sh downs).shared.trace =
      callsOf b.stepName sh.trace ∨
    ∃ ds, callsOf b.stepName (setup.streamFeed b trigger input received chunk late sh downs).shared.trace =
      callsOf b.stepName sh.trace ++ [.dispatch b.capability ds (DagSetup.chunkPayload trigger input chunk sh)] := by
  cases downs with
  | nil =>
    rw [DagSetup.streamFeed, shared_streamLoop]
    exact .inl rfl
  | cons ds rest => exact .inr ⟨ds, callsOf_note_called _ _ _⟩

theorem streamResume_calls (h : setup.streamResume b trigger input s sp sh = some turn) :
    callsOf b.stepName turn.shared.trace = callsOf b.stepName sh.trace ∨
    ∃ ds chunk sh₀, callsOf b.stepName turn.shared.trace =
      callsOf b.stepName sh.trace ++ [.dispatch b.capability ds (DagSetup.chunkPayload trigger input chunk sh₀)] := by
  unfold DagSetup.streamResume at h
  split at h
  · next outcome _ =>
    obtain rfl := Option.some.inj h
    left
    cases outcome with
    | ok v => exact callsOf_note_replied _ _ _ _ _
    | error e =>
      rw [shared_streamFail]
      exact callsOf_note_replied _ _ _ _ _
  · obtain rfl := Option.some.inj h
    rw [shared_streamLoop]
    exact .inl rfl
  · obtain rfl := Option.some.inj h
    unfold DagSetup.streamRead
    split
    · rw [shared_streamFail]
      exact .inl rfl
    · rw [shared_streamFail]
      exact .inl rfl
    · unfold DagSetup.streamChunk
      split
      · split
        · rw [shared_streamDone]
          exact .inl rfl
        · exact (streamFeed_calls setup b trigger input _ _ _ sh _).imp_right fun ⟨ds, hds⟩ => ⟨ds, _, _, hds⟩
      · rw [shared_streamFail]
        exact .inl rfl
  · next outcome late received chunk ds rest =>
    obtain rfl := Option.some.inj h
    unfold DagSetup.streamFed
    split
    · next v =>
      rcases streamFeed_calls setup b trigger input received chunk late
        { sh.note (.replied b.stepName none (.ok v)) with ctx := sh.ctx.accumulate ds v } rest with hs | ⟨d, hc⟩
      · exact .inl (hs.trans (callsOf_note_replied _ _ _ _ _))
      · exact .inr ⟨d, _, _, hc.trans (congrArg (· ++ _) (callsOf_note_replied _ _ _ _ _))⟩
    · next e =>
      split
      · rcases streamFeed_calls setup b trigger input received chunk late
          (sh.note (.replied b.stepName none (.error e))) rest with hs | ⟨d, hc⟩
        · exact .inl (hs.trans (callsOf_note_replied _ _ _ _ _))
        · exact .inr ⟨d, _, _, hc.trans (congrArg (· ++ _) (callsOf_note_replied _ _ _ _ _))⟩
      · exact .inl (callsOf_note_replied _ _ _ _ _)
  · next outcome _ =>
    obtain rfl := Option.some.inj h
    left
    cases outcome with
    | ok _ => rfl
    | error e => rw [shared_streamFail]
  · next outcome _ =>
    obtain rfl := Option.some.inj h
    left
    cases outcome <;> rw [shared_streamFail]
  · next outcome _ =>
    obtain rfl := Option.some.inj h
    left
    cases outcome <;> rfl
  · cases h

theorem calls_stream (hp : Passes b Q) (h : setup.streamResume b trigger input s sp sh = some turn)
    (hph : (Phase.streaming trigger input sp).Takes b Q sh.trace) :
    ∀ call ∈ callsOf b.stepName turn.shared.trace, Q call.payload := by
  obtain ⟨ht, hi, hca⟩ := hph
  intro call hc
  rcases streamResume_calls h with hs | ⟨ds, chunk, sh₀, hm⟩
  · exact hca call (hs ▸ hc)
  · rw [hm] at hc
    rcases mem_append.mp hc with hc | hc
    · exact hca call hc
    · rw [mem_singleton.mp hc]
      exact hp.chunk trigger input chunk sh₀ ht hi

theorem takes_leave {outcome : Except PyErr JsonValue} (h : setup.leave b outcome sh = (ph', sh'))
    (hc : ∀ call ∈ callsOf b.stepName sh.trace, Q call.payload) : ph'.Takes b Q sh'.trace := by
  rcases leave_cases h with ⟨e, -, rfl, rfl⟩ | ⟨result, ctx, -, -, ⟨-, rfl, rfl⟩ | ⟨-, rfl, rfl⟩⟩
  · change ∀ call ∈ callsOf _ _, _
    rw [callsOf_note_ended]
    exact hc
  · exact hc
  · change ∀ call ∈ callsOf _ _, _
    rw [callsOf_note_ended]
    exact hc

theorem calls_note_called {call : Call} (hca : ∀ call ∈ callsOf b.stepName sh.trace, Q call.payload)
    (hcal : Q call.payload) : ∀ c ∈ callsOf b.stepName (sh.note (.called b.stepName call)).trace, Q c.payload := by
  intro c hc
  rw [callsOf_note_called] at hc
  rcases mem_append.mp hc with hc | hc
  · exact hca c hc
  · rwa [mem_singleton.mp hc]

theorem request_payload (input : JsonObj) : (b.request input).payload = input := by
  unfold DagStep.request
  split <;> rfl

/-- Payloads keep what the input had when it was built. -/
theorem StepTurn.takes (hp : Passes b Q) (h : StepTurn setup b signal ph sh ph' sh')
    (hst : ph = .created → Q (b.buildInput sh.ctx)) (hph : ph.Takes b Q sh.trace) : ph'.Takes b Q sh'.trace := by
  have hni : ∀ {trace : List DagEvent}, callsOf b.stepName trace = [] →
      ∀ call ∈ callsOf b.stepName trace, Q call.payload := by
    intro trace hn call hc
    rw [hn] at hc
    cases hc
  cases h with
  | skip _ =>
    refine hni ?_
    rw [callsOf_note_ended]
    exact hph
  | start _ => exact ⟨hst rfl, hni hph⟩
  | acquire => exact hph
  | scatter hm =>
    refine ⟨hm, hph.1, ?_⟩
    rw [callsOf_note]
    simpa [DagEvent.callOf] using hph.2
  | connect _ ht =>
    exact ⟨ht, hph.1, calls_note_called hph.2 (hp.enriched _ _ sh ht hph.1)⟩
  | pass _ _ ho => exact takes_leave ho hph.2
  | @call input _ _ _ =>
    refine ⟨hph.1, calls_note_called hph.2 ?_⟩
    rw [request_payload]
    exact hph.1
  | @again input n _ =>
    refine ⟨hph.1, calls_note_called hph.2 ?_⟩
    rw [request_payload]
    exact hph.1
  | retry _ =>
    refine ⟨hph.1, ?_⟩
    rw [callsOf_note_replied]
    exact hph.2
  | answer _ ho =>
    refine takes_leave ho ?_
    rw [callsOf_note_replied]
    exact hph.2
  | @item coll input pool pool' i s _ _ htu =>
    obtain ⟨hm, hi, hca⟩ := hph
    obtain ⟨t, t', -, hon, -⟩ := Crew.turn_tasks htu
    refine ⟨hm, hi, ?_⟩
    change b.mapOne coll input s t sh = some (t', sh') at hon
    unfold DagStep.mapOne at hon
    split at hon
    · obtain ⟨-, rfl⟩ := Prod.mk.inj (Option.some.inj hon)
      exact calls_note_called hca (hp.item coll input _ _ hm hi)
    · obtain ⟨-, rfl⟩ := Prod.mk.inj (Option.some.inj hon)
      rw [callsOf_note_replied]
      exact hca
    · cases hon
  | gathered _ ho => exact takes_leave ho hph.2.2
  | streamGo hs => exact ⟨hph.1, hph.2.1, calls_stream hp hs hph⟩
  | streamLeave hs ho => exact takes_leave ho (calls_stream hp hs hph)
  | saved =>
    change ∀ call ∈ callsOf _ _, _
    rw [callsOf_note_ended]
    exact hph

theorem Phase.Takes.calls (h : ph.Takes b Q trace) : ∀ call ∈ callsOf b.stepName trace, Q call.payload := by
  cases ph with
  | created =>
    intro call hc
    have hn : callsOf b.stepName trace = [] := h
    rw [hn] at hc
    cases hc
  | mapping _ _ _ => exact h.2.2
  | streaming _ _ _ => exact h.2.2
  | saving _ => exact h
  | ended _ => exact h
  | _ => exact h.2

theorem Phase.Takes.congr {trace' : List DagEvent} (h : ph.Takes b Q trace)
    (hc : callsOf b.stepName trace' = callsOf b.stepName trace) : ph.Takes b Q trace' := by
  cases ph with
  | created => exact hc.trans h
  | mapping coll input pool | streaming trigger input sp => exact ⟨h.1, h.2.1, hc ▸ h.2.2⟩
  | saving _ | ended _ => exact fun call hca => h call (hc ▸ hca)
  | _ => exact ⟨h.1, hc ▸ h.2⟩

end

variable {A : StepTask → Signal → Prop} {dag : DagDefinition} {initial : JsonObj} {r : DagRun}

theorem reaches_inputData (h : setup.Reaches A dag initial r) : r.shared.ctx.inputData = initial :=
  reaches_shared (I := fun sh => sh.ctx.inputData = initial) h (fun _ hc => (newContext_eq_ok hc).1)
    fun _ _ _ _ _ _ _ _ _ ht hs => ht.fields.1.trans hs

theorem reaches_results (h : setup.Reaches A dag initial r) {n : String} (hn : n ∉ names dag.steps) :
    r.shared.ctx.stepResults.lookup n = none := by
  refine reaches_shared (I := fun sh => sh.ctx.stepResults.lookup n = none) h ?_ ?_
  · intro ctx hc
    obtain ⟨-, -, hno, -, -⟩ := newContext_eq_ok hc
    rw [hno]
    rfl
  · intro signal step ph sh ph' sh' hs _ _ ht hno
    rw [ht.fields.2.2.1 n fun heq : n = step.stepName => hn (heq ▸ mem_map_of_mem hs)]
    exact hno

variable {a b : DagStep} {f k : String} {v : JsonValue} {Q : JsonObj → Prop}

/-- Once the earlier step has a result with the field, every payload of the later one carries it on. -/
theorem reaches_takes (hd : (names dag.steps).Nodup) (ha : a ∈ dag.steps) (hb : b ∈ dag.steps)
    (hdep : a.stepName ∈ b.dependsOn) (hk : (k, f) ∈ a.outputMapping.entries)
    (hal : ∀ c ∈ dag.steps, c ≠ a → k ∉ c.written) (hp : Passes b Q)
    (hbu : ∀ ctx : DagContext, ctx.context.lookup k = some v → ctx.inputData = initial →
      (∀ n ∉ names dag.steps, ctx.stepResults.lookup n = none) → Q (b.buildInput ctx))
    (h : setup.Reaches A dag initial r) :
    ∀ t ∈ r.all (setup.engine dag.steps), t.step = b → ∀ fields,
      r.shared.ctx.stepResults.lookup a.stepName = some (.obj fields) → fields.lookup f = some v →
      t.phase.Takes b Q r.shared.trace := by
  have ha' : ∀ c ∈ dag.steps, c.stepName ≠ a.stepName → k ∉ c.written := fun c hc hne =>
    hal c hc fun heq => hne (congrArg DagStep.stepName heq)
  have hde : a.stepName ∈ dependencies dag.steps b.stepName := by
    rw [DagEngine.dependencies_of_mem hd hb]
    exact hdep
  -- A step that has ended has no further turn
  have hen : ∀ {s : DagRun} {ph ph' : Phase} {signal : Signal} {sh' : DagShared} {o : Except PyErr JsonValue},
      setup.Reaches A dag initial s → ⟨a, ph⟩ ∈ s.pool.tasks → .ended a.stepName o ∈ s.shared.trace →
      ¬ StepTurn setup a signal ph s.shared ph' sh' := by
    intro s ph ph' signal sh' o hs hm hto htu
    have hph := (mem_trace_ended hs ⟨a, ph⟩ (by simp [ForkJoin.State.all, hm]) o).mp hto
    obtain rfl : ph = .ended o := hph
    cases htu
  intro t ht hste fields hr hv
  refine (reaches_tasks_at (P := fun t sh => t.step = b →
    (t.phase ≠ .created → ∃ o, .ended a.stepName o ∈ sh.trace) ∧
      ∀ fields, sh.ctx.stepResults.lookup a.stepName = some (.obj fields) → fields.lookup f = some v →
        t.phase.Takes b Q sh.trace) h ?_ ?_ ?_ t ht hste).2 fields hr hv
  · rintro ctx - s - -
    exact ⟨fun hne => absurd rfl hne, fun _ _ _ => rfl⟩
  · rintro s signal step ph ph' sh' ⟨hs, -⟩ hm - hP htu rfl
    obtain ⟨hto, hta⟩ := hP rfl
    obtain ⟨o, ho⟩ := (callAllowed_current hd hs hm).1 _ hde
    have hne : a.stepName ≠ step.stepName := by
      intro heq
      obtain rfl : a = step := inj_on_of_nodup_map hd ha hb heq
      exact hen hs hm ho htu
    have hre := htu.fields.2.2.1 _ hne
    obtain ⟨events, htr, -⟩ := htu.tellsAll
    refine ⟨fun _ => ⟨o, by rw [htr]; exact mem_append_left _ ho⟩, fun fields hr hv => ?_⟩
    rw [hre] at hr
    refine htu.takes hp (fun _ => ?_) (hta fields hr hv)
    -- The input is built after the end of the earlier step
    obtain ⟨u, hu, hua⟩ := exists_task hs hd ha (mem_trace_runner hs _ ho)
    have hg := reaches_gives hk ha' hs u hu hua
    rw [(mem_trace_ended hs u hu o).mp (hua ▸ ho)] at hg
    exact hbu s.shared.ctx (hg fields v hr hv) (reaches_inputData hs) fun n hn => reaches_results hs hn
  · rintro s signal step ph ph' sh' u ⟨hs, -⟩ hm - - hu hne hPu htu hub
    obtain ⟨hto, hta⟩ := hPu hub
    obtain ⟨events, htr, hru, -⟩ := htu.tellsAll
    have hca : callsOf b.stepName sh'.trace = callsOf b.stepName s.shared.trace := by
      refine callsOf_congr ?_
      rw [htr, ownTrace_append_other]
      intro e he
      rw [hru e he, ← hub]
      exact Ne.symm hne
    refine ⟨fun hcr => ?_, fun fields hr hv => ?_⟩
    · obtain ⟨o, ho⟩ := hto hcr
      exact ⟨o, by rw [htr]; exact mem_append_left _ ho⟩
    · by_cases hsa : a.stepName = step.stepName
      · -- The later step has not started yet
        have hm' : ⟨step, ph⟩ ∈ s.all (setup.engine dag.steps) := by simp [ForkJoin.State.all, hm]
        obtain rfl : a = step := inj_on_of_nodup_map hd ha (step_mem hs _ hm') hsa
        have hcr : u.phase = .created := by
          by_contra hst
          obtain ⟨o, ho⟩ := hto hst
          exact hen hs hm ho htu
        have hsp := reaches_spends hs u hu
        rw [hcr] at hsp ⊢
        rw [hub] at hsp
        exact hca.trans hsp
      · rw [htu.fields.2.2.1 _ hsa] at hr
        exact (hta fields hr hv).congr hca

def Brings (p : String) (value : Option JsonValue) (payload : JsonObj) : Prop :=
  (payload.map Prod.fst).Nodup ∧ payload.lookup p = value

theorem Brings.assign {name : String} {value : Option JsonValue} {payload : JsonObj}
    (h : Brings p value payload) (hne : p ≠ name) (x : JsonValue) : Brings p value (JsonValue.assign payload name x) := by
  refine ⟨nodup_assign h.1 name x, ?_⟩
  rw [lookup_assign, if_neg hne]
  exact h.2

theorem passes_brings (v : JsonValue) (hm : ∀ coll, b.mapKey = some coll → p ≠ coll ∧ p ≠ "_map_index")
    (hs : b.trigger ≠ none → p ≠ "_streaming_buffer_key") : Passes b (Brings p (some v)) where
  item coll input index item ho h := (h.assign (hm coll ho).1 item).assign (hm coll ho).2 _
  enriched trigger input sh ht h := h.assign (hs (by simp [ht])) _
  chunk trigger input chunk sh ht h := by
    have he := h.assign (hs (by simp [ht])) (.str (DagSetup.bufferKey trigger sh))
    have hk : ∀ {fields other : JsonObj}, (fields.map Prod.fst).Nodup →
        ((JsonValue.assignAll fields other).map Prod.fst).Nodup := by
      intro fields other hf
      induction other generalizing fields with
      | nil => exact hf
      | cons e other ih => exact ih (nodup_assign hf e.1 e.2)
    refine ⟨hk (pairwise_singleton _ _), ?_⟩
    rw [DagSetup.chunkPayload, DagSetup.enriched, lookup_assignAll _ he.1, he.2]
    rfl

theorem passes_normal (h : b.Normal) (Q : JsonObj → Prop) : Passes b Q where
  item coll _ _ _ ho := by
    rw [h.1] at ho
    cases ho
  enriched _ _ _ ht := by
    rw [h.2] at ht
    cases ht
  chunk _ _ _ _ ht := by
    rw [h.2] at ht
    cases ht

theorem nodup_buildInput (step : DagStep) (h : (ctx.inputData.map Prod.fst).Nodup) :
    ((step.buildInput ctx).map Prod.fst).Nodup := by
  unfold DagStep.buildInput
  generalize ctx.inputData = input at h ⊢
  induction step.inputMapping.entries generalizing input with
  | nil => exact h
  | cons e entries ih =>
    rw [foldl_cons]
    refine ih _ ?_
    split
    · exact h
    · exact nodup_assign h _ _

theorem source_truthy (h : ctx.context.lookup k = some v) (hv : v.truthy = true) : ctx.source k = v := by
  simp [DagContext.source, h, hv]

theorem source_falsy (h : ctx.context.lookup k = some v)
    (hv : v.truthy = false) (hr : ctx.stepResults.lookup k = none) : ctx.source k = .null := by
  simp [DagContext.source, h, hv, hr]

theorem brings_truthy (hi : (initial.map Prod.fst).Nodup) (hin : (p, k) ∈ b.inputMapping.entries)
    (hv : v.truthy = true) (ctx : DagContext) (hc : ctx.context.lookup k = some v)
    (hinp : ctx.inputData = initial) : Brings p (some v) (b.buildInput ctx) := by
  have hn : v ≠ .null := by
    rintro rfl
    cases hv
  refine ⟨nodup_buildInput b (hinp ▸ hi), ?_⟩
  rw [lookup_buildInput b ctx hin, source_truthy hc hv, if_neg hn]

theorem brings_falsy (hini : (initial.map Prod.fst).Nodup) (hin : (p, k) ∈ b.inputMapping.entries)
    (hv : v.truthy = false) (ctx : DagContext) (hc : ctx.context.lookup k = some v)
    (hi : ctx.inputData = initial) (hr : ctx.stepResults.lookup k = none) :
    Brings p (initial.lookup p) (b.buildInput ctx) := by
  refine ⟨nodup_buildInput b (hi ▸ hini), ?_⟩
  rw [lookup_buildInput b ctx hin, source_falsy hc hv hr, if_pos rfl, hi]

/-- The value of field `f` of the result of `a`, mapped to `k` and from there to `p` of `b`. A value
that is true in Python is in every payload of `b`, unless `b` is a MAP or streaming step that uses `p`
for itself. For a normal step, when `k` is not also the name of a step, the payload has the value only
then, or when the initial input had it already. -/
theorem mapped_value_arrives (setup : DagSetup) (dag : DagDefinition) (initial : JsonObj)
    (hdistinct : (names dag.steps).Nodup) (hinitial : (initial.map Prod.fst).Nodup) (a b : DagStep)
    (ha : a ∈ dag.steps) (hb : b ∈ dag.steps) (hdep : a.stepName ∈ b.dependsOn) (f k p : String) (v : JsonValue)
    (hout : (k, f) ∈ a.outputMapping.entries) (hin : (p, k) ∈ b.inputMapping.entries)
    (halone : ∀ c ∈ dag.steps, c ≠ a → k ∉ c.written) (r : DagRun)
    (h : setup.Reaches (fun _ _ => True) dag initial r) (fields : JsonObj)
    (hresult : r.shared.ctx.stepResults.lookup a.stepName = some (.obj fields)) (hv : fields.lookup f = some v) :
    (v.truthy = true → (∀ coll, b.mapKey = some coll → p ≠ coll ∧ p ≠ "_map_index") →
      (b.trigger ≠ none → p ≠ "_streaming_buffer_key") →
      ∀ call ∈ callsOf b.stepName r.shared.trace, call.payload.lookup p = some v) ∧
    (b.Normal → k ∉ names dag.steps → ∀ call ∈ callsOf b.stepName r.shared.trace,
      (call.payload.lookup p = some v ↔ v.truthy = true ∨ initial.lookup p = some v)) := by
  have hca : ∀ value, Passes b (Brings p value) →
      (∀ ctx : DagContext, ctx.context.lookup k = some v → ctx.inputData = initial →
        (∀ n ∉ names dag.steps, ctx.stepResults.lookup n = none) → Brings p value (b.buildInput ctx)) →
      ∀ call ∈ callsOf b.stepName r.shared.trace, call.payload.lookup p = value := by
    intro value hp hbu call hc
    have hn : b.stepName ∈ (topoSort dag.steps).flatten := by
      by_contra hn
      rw [callsOf_unscheduled h hn] at hc
      cases hc
    obtain ⟨t, ht, hs⟩ := exists_task h hdistinct hb hn
    have hta := reaches_takes hdistinct ha hb hdep hout halone hp hbu h t ht hs fields hresult hv
    exact (hta.calls call hc).2
  constructor
  · intro htr hm hst
    exact hca (some v) (passes_brings v hm hst) fun ctx hco hi _ =>
      brings_truthy hinitial hin htr ctx hco hi
  · intro hno hk call hc
    cases htr : v.truthy with
    | true =>
      have hl := hca (some v) (passes_normal hno _)
        (fun ctx hco hi _ => brings_truthy hinitial hin htr ctx hco hi) call hc
      simp [hl]
    | false =>
      have hl := hca (initial.lookup p) (passes_normal hno _)
        (fun ctx hco hi hr => brings_falsy hinitial hin htr ctx hco hi (hr k hk))
        call hc
      simp [hl]

def flowSteps : List DagStep :=
  [{ stepName := "a", capability := "gpu", outputMapping := .single "k" "x" },
    { stepName := "b", capability := "gpu", dependsOn := ["a"], inputMapping := .single "p" "k" }]

def flowRun (v : JsonValue) : Option DagRun :=
  DagSetup.after {} { dagId := "d", steps := flowSteps } []
    (oneCall 0 (.ok (.obj [("x", v)])) ++ [.gathered] ++ (oneCall 0 (.ok (.obj []))).take 3)

theorem mapped_value_arrives_str : ∃ r, flowRun (.str "y") = some r ∧
    callsOf "b" r.shared.trace ≠ [] ∧ ∀ call ∈ callsOf "b" r.shared.trace, call.payload.lookup "p" = some (.str "y") := by
  have hru : (flowRun (.str "y")).map (fun r => ((callsOf "b" r.shared.trace).length,
      r.shared.ctx.stepResults.lookup "a")) = some (1, some (.obj [("x", .str "y")])) := by
    decide +kernel
  obtain ⟨r, hr, hv⟩ := Option.map_eq_some_iff.mp hru
  obtain ⟨hc, hre⟩ := Prod.mk.inj hv
  refine ⟨r, hr, fun hn => (by rw [hn] at hc; cases hc), ?_⟩
  exact (mapped_value_arrives {} { dagId := "d", steps := flowSteps } [] (by decide) (by decide)
    flowSteps[0] flowSteps[1] (by decide) (by decide) (by decide) "x" "k" "p" (.str "y") (by decide) (by decide)
    (by decide) r (reaches_of_after hr fun _ _ _ _ => trivial) _ hre rfl).1 rfl (fun _ ho => by cases ho)
    fun ht => absurd rfl ht

/-- A zero does not arrive: the payload of the second step is empty. -/
theorem zero_lost : (flowRun (.num 0)).map (fun r => (r.shared.ctx.context.lookup "k", callsOf "b" r.shared.trace)) =
    some (some (.num 0), [.dispatch "gpu" "b" []]) := by
  decide +kernel

end AsyncScheduler
