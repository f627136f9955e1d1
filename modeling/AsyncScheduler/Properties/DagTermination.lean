import AsyncScheduler.Properties.DagHistory

/-!
# Runs of a DAG end

Each turn brings a step nearer to its end: it enters a later part of `_run_step`, or it stays in the
section of the semaphore with fewer attempts or items left.
-/

namespace AsyncScheduler
open List

variable {trace : List DagEvent} {step : DagStep} {trace' : List DagEvent} {ph : Phase}

open DagEngine (names stepNamed topoSort)

namespace Phase

def isStreaming : Phase → Bool
  | .streaming _ _ _ => true
  | _ => false

def ahead : Phase → Nat
  | .created => 5
  | .waiting _ => 4
  | .inside _ => 3
  | .calling _ _ | .sleeping _ _ | .mapping _ _ _ | .streaming _ _ _ => 2
  | .saving _ => 1
  | .ended _ => 0

end Phase

def MapItem.left (t : MapItem) : Nat :=
  match t.state with
  | .queued => 2
  | .calling => 1
  | .done _ => 0

def Phase.left (step : DagStep) : Phase → Nat
  | .calling _ n => 2 * (step.attempts - n)
  | .sleeping _ n => 2 * (step.attempts - n) + 1
  | .mapping _ _ pool => (pool.tasks.map MapItem.left).sum
  | _ => 0

def StepTask.rank (t : StepTask) : ℕ ×ₗ ℕ := toLex (t.phase.ahead, t.phase.left t.step)

variable {setup : DagSetup} {signal : Signal} {ph' : Phase} {sh sh' : DagShared}

section
variable {outcome : Except PyErr JsonValue}

theorem ahead_leave (h : setup.leave step outcome sh = (ph', sh')) : ph'.ahead ≤ 1 := by
  rcases leave_cases h with ⟨e, -, rfl, -⟩ | ⟨result, ctx, -, -, ⟨-, rfl, -⟩ | ⟨-, rfl, -⟩⟩
  · exact Nat.zero_le 1
  · exact Nat.le_refl 1
  · exact Nat.zero_le 1

theorem mapOne_left {coll : String} {input : JsonObj} {s : ItemSignal} {t t' : MapItem}
    (h : step.mapOne coll input s t sh = some (t', sh')) : t'.left < t.left := by
  unfold DagStep.mapOne at h
  split at h
  · obtain ⟨rfl, -⟩ := Prod.mk.inj (Option.some.inj h)
    exact Nat.lt_succ_self 1
  · obtain ⟨rfl, -⟩ := Prod.mk.inj (Option.some.inj h)
    exact Nat.zero_lt_one
  · cases h

/-- Outside a stream every turn brings a step nearer to its end. -/
theorem StepTurn.rank_lt (h : StepTurn setup step signal ph sh ph' sh') (hph : ph.isStreaming = false) :
    (StepTask.mk step ph').rank < (StepTask.mk step ph).rank := by
  rw [StepTask.rank, StepTask.rank, Prod.Lex.toLex_lt_toLex]
  have hl : ∀ outcome sh₀, setup.leave step outcome sh₀ = (ph', sh') → ph.ahead = 2 ∨ ph.ahead = 3 →
      ph'.ahead < ph.ahead := by
    intro outcome sh₀ ho ha
    have := ahead_leave ho
    omega
  cases h with
  | skip _ => exact .inl (by decide : 0 < 5)
  | start _ => exact .inl (by decide : 4 < 5)
  | acquire => exact .inl (by decide : 3 < 4)
  | scatter _ | connect _ _ => exact .inl (by decide : 2 < 3)
  | pass _ _ ho => exact .inl (hl _ _ ho (.inr rfl))
  | call _ _ => exact .inl (by decide : 2 < 3)
  | @again input n _ => exact .inr ⟨rfl, Nat.lt_succ_self (2 * (step.attempts - n))⟩
  | @retry input n outcome _ hr =>
    refine .inr ⟨rfl, ?_⟩
    cases outcome with
    | ok v => cases hr
    | error e =>
      have hn : n + 1 < step.attempts := by
        simp only [DagStep.retries, Bool.and_eq_true, decide_eq_true_eq] at hr
        exact hr.2
      change 2 * (step.attempts - (n + 1)) + 1 < 2 * (step.attempts - n)
      omega
  | answer _ ho => exact .inl (hl _ _ ho (.inl rfl))
  | @item coll input pool pool' i s _ _ htu =>
    refine .inr ⟨rfl, ?_⟩
    obtain ⟨before, t, after, t', ht, -, hon, -, rfl⟩ := Crew.turn_eq_some.mp htu
    have hlt := mapOne_left hon
    change ((before ++ t' :: after).map MapItem.left).sum < (pool.tasks.map MapItem.left).sum
    rw [ht]
    simp only [map_append, map_cons, sum_append, sum_cons]
    omega
  | gathered _ ho => exact .inl (hl _ _ ho (.inl rfl))
  | streamGo _ => cases hph
  | streamLeave _ _ => cases hph
  | saved => exact .inl Nat.zero_lt_one

def Phase.Capacity (step : DagStep) : Phase → Prop
  | .mapping coll input pool => pool.free + (step.mapCrew coll input).held pool = step.mapLimit
  | _ => True

theorem mapLimit_pos (step : DagStep) : 0 < step.mapLimit := by
  unfold DagStep.mapLimit
  split <;> omega

theorem capacity_leave (h : setup.leave step outcome sh = (ph', sh')) : ph'.Capacity step := by
  rcases leave_cases h with ⟨e, -, rfl, -⟩ | ⟨result, ctx, -, -, ⟨-, rfl, -⟩ | ⟨-, rfl, -⟩⟩ <;> trivial

theorem held_mapPool (coll : String) (input : JsonObj) (items : List JsonValue) :
    (step.mapCrew coll input).held (step.mapPool items) = 0 := by
  refine countP_eq_zero.mpr fun t ht => ?_
  obtain ⟨e, -, rfl⟩ := mem_map.mp ht
  exact Bool.false_ne_true

theorem StepTurn.capacity (h : StepTurn setup step signal ph sh ph' sh') (hph : ph.Capacity step) :
    ph'.Capacity step := by
  cases h with
  | scatter _ =>
    change step.mapLimit + (step.mapCrew _ _).held _ = step.mapLimit
    rw [held_mapPool, Nat.add_zero]
  | item ht => exact (Crew.turn_capacity ht).trans hph
  | pass _ _ ho => exact capacity_leave ho
  | answer _ ho => exact capacity_leave ho
  | gathered _ ho => exact capacity_leave ho
  | streamLeave _ ho => exact capacity_leave ho
  | _ => trivial

/-- Outside a stream a step that has not ended can have a turn. -/
theorem exists_runStep (hc : ph.Capacity step) (hst : ph.isStreaming = false)
    (he : ph.isEnded = false) (sh : DagShared) :
    ∃ signal ph' sh', setup.runStep step signal ph sh = some (ph', sh') := by
  cases ph with
  | created =>
    refine ⟨.go, ?_⟩
    unfold DagSetup.runStep
    dsimp only
    split
    · exact ⟨_, _, rfl⟩
    · exact ⟨_, _, rfl⟩
  | waiting input | inside input => exact ⟨.go, _, _, rfl⟩
  | calling input n => exact ⟨.reply (.ok .null), _, _, rfl⟩
  | sleeping input n => exact ⟨.go, _, _, rfl⟩
  | streaming trigger input sp => cases hst
  | saving result => exact ⟨.saved (.ok ()), _, _, rfl⟩
  | ended outcome => cases he
  | mapping coll input pool =>
    by_cases ha : pool.tasks.all (step.mapCrew coll input).ended = true
    · exact ⟨.go, _, _, if_pos ha⟩
    · have hs : ∃ t ∈ pool.tasks, (step.mapCrew coll input).ended t = false := by
        by_contra hn
        push Not at hn
        exact ha (all_eq_true.mpr fun t ht => by simpa using hn t ht)
      have hp : 0 < pool.free + (step.mapCrew coll input).held pool := by
        have := mapLimit_pos step
        change _ = _ at hc
        omega
      have hhe : ∀ t, (step.mapCrew coll input).holds t = true → (step.mapCrew coll input).ended t = false := by
        rintro ⟨index, item, state⟩ hh
        cases state with
        | calling => rfl
        | queued => cases hh
        | done _ => cases hh
      have hl : ∀ t ∈ pool.tasks, (step.mapCrew coll input).ended t = false →
          ∃ i t' sh', True ∧ (step.mapCrew coll input).resume i t sh = some (t', sh') := by
        rintro ⟨index, item, state⟩ - hl
        cases state with
        | queued => exact ⟨.go, _, _, trivial, rfl⟩
        | calling => exact ⟨.reply (.ok .null), _, _, trivial, rfl⟩
        | done _ => cases hl
      obtain ⟨j, s, t, pool', sh', -, -, htu⟩ :=
        Crew.exists_turn (A := fun _ _ => True) hp hhe hl hs
      exact ⟨.item j s, .mapping coll input pool', sh', by rw [DagSetup.runStep, htu]; rfl⟩

end

def DagEvent.callOf (runner : String) : DagEvent → Option Call
  | .called n call => if n = runner then some call else none
  | _ => none

def callsOf (runner : String) (trace : List DagEvent) : List Call := trace.filterMap (DagEvent.callOf runner)

theorem callsOf_append (runner : String) (trace events : List DagEvent) :
    callsOf runner (trace ++ events) = callsOf runner trace ++ callsOf runner events := filterMap_append

theorem callsOf_ownTrace (runner : String) (trace : List DagEvent) :
    callsOf runner (ownTrace runner trace) = callsOf runner trace := by
  rw [callsOf, ownTrace, filterMap_filter]
  refine filterMap_congr fun e _ => ?_
  cases e with
  | called n call =>
    by_cases hn : n = runner <;> simp [DagEvent.runner, DagEvent.callOf, hn]
  | _ => simp [DagEvent.callOf]

theorem callsOf_congr {runner : String}
    (h : ownTrace runner trace = ownTrace runner trace') : callsOf runner trace = callsOf runner trace' := by
  rw [← callsOf_ownTrace, h, callsOf_ownTrace]

theorem callsOf_note (runner : String) (sh : DagShared) (e : DagEvent) :
    callsOf runner (sh.note e).trace = callsOf runner sh.trace ++ (e.callOf runner).toList := by
  rw [DagShared.note_trace, callsOf_append]
  refine congrArg (callsOf runner sh.trace ++ ·) ?_
  cases h : e.callOf runner <;> simp [callsOf, h]

@[simp] theorem callsOf_note_ended (runner n : String) (sh : DagShared) (o : Except PyErr JsonValue) :
    callsOf runner (sh.note (.ended n o)).trace = callsOf runner sh.trace := by
  rw [callsOf_note]
  exact append_nil _

@[simp] theorem callsOf_note_replied (runner n : String) (sh : DagShared) (index : Option Nat)
    (o : Except PyErr JsonValue) : callsOf runner (sh.note (.replied n index o)).trace = callsOf runner sh.trace := by
  rw [callsOf_note]
  exact append_nil _

theorem callsOf_note_called (runner : String) (sh : DagShared) (call : Call) :
    callsOf runner (sh.note (.called runner call)).trace = callsOf runner sh.trace ++ [call] := by
  rw [callsOf_note]
  simp [DagEvent.callOf]

/-- A step that is not mapped has made at most one call for each attempt, a MAP step at most one for
each of its items. -/
def WithinBudget (step : DagStep) (trace : List DagEvent) : Prop :=
  (step.Normal → (callsOf step.stepName trace).length ≤ step.attempts) ∧
  (step.mapKey ≠ none → callsOf step.stepName trace = [] ∨
    ∃ items, .mapped step.stepName items ∈ trace ∧ (callsOf step.stepName trace).length ≤ items.length)

def Phase.Spends (step : DagStep) (trace : List DagEvent) : Phase → Prop
  | .created | .waiting _ | .inside _ => callsOf step.stepName trace = []
  | .calling _ n => step.Normal ∧ (callsOf step.stepName trace).length = n + 1 ∧ n < step.attempts
  | .sleeping _ n => step.Normal ∧ (callsOf step.stepName trace).length = n ∧ n < step.attempts
  | .mapping _ _ pool => step.mapKey ≠ none ∧
      (callsOf step.stepName trace).length + pool.tasks.countP (fun t => t.state = .queued) = pool.tasks.length ∧
      ∃ items, .mapped step.stepName items ∈ trace ∧ pool.tasks.length = items.length
  | .streaming _ _ _ => step.mapKey = none ∧ step.trigger ≠ none
  | .saving _ | .ended _ => WithinBudget step trace

theorem WithinBudget.congr
    (h : ownTrace step.stepName trace = ownTrace step.stepName trace') (hw : WithinBudget step trace) :
    WithinBudget step trace' := by
  obtain ⟨hn, hm⟩ := hw
  rw [callsOf_congr h] at hn hm
  refine ⟨hn, fun hk => (hm hk).imp_right ?_⟩
  rintro ⟨items, hi, hle⟩
  refine ⟨items, ?_, hle⟩
  rw [← mem_ownTrace (show (DagEvent.mapped step.stepName items).runner = step.stepName from rfl)] at hi ⊢
  rwa [← h]

theorem Phase.Spends.congr
    (h : ownTrace step.stepName trace = ownTrace step.stepName trace') (hs : ph.Spends step trace) :
    ph.Spends step trace' := by
  have hc := callsOf_congr h
  cases ph with
  | saving _ | ended _ => exact WithinBudget.congr h hs
  | streaming _ _ _ => exact hs
  | mapping coll input pool =>
    obtain ⟨hm, hco, items, hi, hl⟩ := hs
    refine ⟨hm, hc ▸ hco, items, ?_, hl⟩
    rw [← mem_ownTrace (show (DagEvent.mapped step.stepName items).runner = step.stepName from rfl)] at hi ⊢
    rwa [← h]
  | calling _ n | sleeping _ n => exact ⟨hs.1, hc ▸ hs.2.1, hs.2.2⟩
  | _ => exact hc.symm.trans hs

theorem withinBudget_of_nil (h : callsOf step.stepName trace = []) : WithinBudget step trace :=
  ⟨fun _ => by rw [h]; exact Nat.zero_le _, fun _ => .inl h⟩

theorem withinBudget_of_normal (hn : step.Normal)
    (h : (callsOf step.stepName trace).length ≤ step.attempts) : WithinBudget step trace :=
  ⟨fun _ => h, fun hm => absurd hn.1 hm⟩

theorem withinBudget_of_map {items : List JsonValue}
    (hm : step.mapKey ≠ none) (hi : .mapped step.stepName items ∈ trace)
    (h : (callsOf step.stepName trace).length ≤ items.length) : WithinBudget step trace :=
  ⟨fun hn => absurd hn.1 hm, fun _ => .inr ⟨items, hi, h⟩⟩

theorem Phase.Spends.within (h : ph.Spends step trace) : WithinBudget step trace := by
  cases ph with
  | created | waiting _ | inside _ => exact withinBudget_of_nil h
  | calling _ n | sleeping _ n => exact withinBudget_of_normal h.1 (by have := h.2.1; have := h.2.2; omega)
  | mapping coll input pool =>
    obtain ⟨hm, hc, items, hi, hl⟩ := h
    exact withinBudget_of_map hm hi (by omega)
  | streaming _ _ _ => exact ⟨fun hn => absurd hn.2 h.2, fun hm => absurd h.1 hm⟩
  | saving _ => exact h
  | ended _ => exact h

theorem withinBudget_ended {trace : List DagEvent} (h : WithinBudget step trace) (o : Except PyErr JsonValue) :
    WithinBudget step (trace ++ [.ended step.stepName o]) := by
  have hc : callsOf step.stepName (trace ++ [.ended step.stepName o]) = callsOf step.stepName trace := by
    rw [callsOf_append]
    exact append_nil _
  refine ⟨fun hn => hc ▸ h.1 hn, fun hm => ?_⟩
  rw [hc]
  rcases h.2 hm with hni | ⟨items, hi, hle⟩
  · exact .inl hni
  · exact .inr ⟨items, mem_append_left _ hi, hle⟩

theorem spends_leave {outcome : Except PyErr JsonValue} (h : setup.leave step outcome sh = (ph', sh'))
    (hb : WithinBudget step sh.trace) : ph'.Spends step sh'.trace := by
  rcases leave_cases h with ⟨e, -, rfl, rfl⟩ | ⟨result, ctx, -, -, ⟨-, rfl, rfl⟩ | ⟨-, rfl, rfl⟩⟩
  · exact withinBudget_ended hb _
  · exact hb
  · exact withinBudget_ended hb _

theorem spends_item {coll : String} {input : JsonObj} {pool pool' : Pool MapItem} {i : Nat}
    {s : ItemSignal} (h : (step.mapCrew coll input).turn i s pool sh = some (pool', sh'))
    (hph : (Phase.mapping coll input pool).Spends step sh.trace) :
    (Phase.mapping coll input pool').Spends step sh'.trace := by
  obtain ⟨hm, hc, items, hi, hl⟩ := hph
  obtain ⟨before, t, after, t', ht, -, ho, -, rfl⟩ := Crew.turn_eq_some.mp h
  obtain ⟨index, item, state⟩ := t
  refine ⟨hm, ?_, items, ?_, by simpa [ht] using hl⟩
  · rw [ht] at hc
    change DagStep.mapOne step coll input s ⟨index, item, state⟩ sh = some (t', sh') at ho
    unfold DagStep.mapOne at ho
    split at ho
    · next heq =>
      cases heq
      obtain ⟨rfl, rfl⟩ := Prod.mk.inj (Option.some.inj ho)
      rw [callsOf_note]
      simp [DagEvent.callOf, countP_append] at hc ⊢
      omega
    · next heq =>
      cases heq
      obtain ⟨rfl, rfl⟩ := Prod.mk.inj (Option.some.inj ho)
      rw [callsOf_note]
      simp [DagEvent.callOf, countP_append] at hc ⊢
      omega
    · cases ho
  · obtain ⟨events, htr, -⟩ := tells_mapOne ho
    rw [htr]
    exact mem_append_left _ hi

/-- A turn makes at most one call, within the budget of the step. -/
theorem StepTurn.spends (h : StepTurn setup step signal ph sh ph' sh') (hph : ph.Spends step sh.trace) :
    ph'.Spends step sh'.trace := by
  have hc : ∀ call, (callsOf step.stepName (sh.note (.called step.stepName call)).trace).length =
      (callsOf step.stepName sh.trace).length + 1 := by
    intro call
    rw [callsOf_note_called, length_append]
    rfl
  cases h with
  | skip _ =>
    refine withinBudget_of_nil ?_
    rw [callsOf_note_ended]
    exact hph
  | start _ => exact hph
  | acquire => exact hph
  | @scatter coll input _ hm =>
    refine ⟨by simp [hm], ?_, DagStep.mapItems coll input sh.ctx, by simp, by simp [DagStep.mapPool]⟩
    rw [callsOf_note]
    have hni : callsOf step.stepName sh.trace = [] := hph
    rw [hni]
    have hq : (step.mapPool (DagStep.mapItems coll input sh.ctx)).tasks.countP (fun t => decide (t.state = .queued)) =
        (step.mapPool (DagStep.mapItems coll input sh.ctx)).tasks.length := by
      refine countP_eq_length.mpr fun t ht => ?_
      obtain ⟨e, -, rfl⟩ := mem_map.mp ht
      rfl
    rw [hq]
    exact Nat.zero_add _
  | connect hm htr => exact ⟨hm, by simp [htr]⟩
  | pass _ _ ho => exact spends_leave ho (withinBudget_of_nil hph)
  | call hn hpos =>
    have hni : callsOf step.stepName sh.trace = [] := hph
    exact ⟨hn, by rw [hc, hni]; rfl, hpos⟩
  | again => exact ⟨hph.1, by rw [hc, hph.2.1], hph.2.2⟩
  | @retry input n outcome _ hr =>
    refine ⟨hph.1, by rw [callsOf_note_replied, hph.2.1], ?_⟩
    cases outcome with
    | ok v => cases hr
    | error e =>
      simp only [DagStep.retries, Bool.and_eq_true, decide_eq_true_eq] at hr
      exact hr.2
  | answer _ ho =>
    refine spends_leave ho (withinBudget_of_normal hph.1 ?_)
    rw [callsOf_note_replied, hph.2.1]
    exact hph.2.2
  | item htu => exact spends_item htu hph
  | gathered _ ho => exact spends_leave ho hph.within
  | streamGo _ => exact hph
  | streamLeave _ ho =>
    refine spends_leave ho ⟨fun hn => absurd hn.2 hph.2, fun hm => absurd hph.1 hm⟩
  | saved => exact withinBudget_ended hph _

variable {dag : DagDefinition} {initial : JsonObj} {r : DagRun}

section
variable {A : StepTask → Signal → Prop}

section
variable (h : setup.Reaches A dag initial r)
include h

theorem reaches_spends :
    ∀ t ∈ r.all (setup.engine dag.steps), t.phase.Spends t.step r.shared.trace :=
  reaches_own (P := fun step ph trace => ph.Spends step trace) h (fun _ _ _ _ heq hs => hs.congr heq) (fun _ _ => rfl)
    fun _ _ _ _ _ _ _ _ hP ht => ht.spends hP

theorem callsOf_unscheduled {name : String}
    (hn : name ∉ (topoSort dag.steps).flatten) : callsOf name r.shared.trace = [] := by
  refine filterMap_eq_nil_iff.mpr fun e he => ?_
  have hr := mem_trace_runner h e he
  cases e with
  | called n call =>
    refine if_neg fun heq : n = name => hn ?_
    rw [← heq]
    exact hr
  | _ => rfl

theorem reaches_capacity :
    ∀ t ∈ r.all (setup.engine dag.steps), t.phase.Capacity t.step :=
  reaches_own (P := fun step ph _ => ph.Capacity step) h (fun _ _ _ _ _ hP => hP) (fun _ _ => trivial)
    fun _ _ _ _ _ _ _ _ hP ht => ht.capacity hP

theorem reaches_calm (hst : ∀ s ∈ dag.steps, s.stepKind ≠ .streaming) :
    ∀ t ∈ r.all (setup.engine dag.steps), t.phase.isStreaming = false := by
  refine reaches_own (P := fun _ ph _ => ph.isStreaming = false) h (fun _ _ _ _ _ hP => hP) (fun _ _ => rfl) ?_
  intro signal step ph sh ph' sh' hs _ hP htu
  have hl : ∀ outcome sh₀, setup.leave step outcome sh₀ = (ph', sh') → ph'.isStreaming = false := by
    intro outcome sh₀ ho
    rcases leave_cases ho with ⟨e, -, rfl, -⟩ | ⟨result, ctx, -, -, ⟨-, rfl, -⟩ | ⟨-, rfl, -⟩⟩ <;> rfl
  cases htu with
  | connect _ ht =>
    rw [DagStep.trigger, if_neg (hst step hs)] at ht
    cases ht
  | pass _ _ ho => exact hl _ _ ho
  | answer _ ho => exact hl _ _ ho
  | gathered _ ho => exact hl _ _ ho
  | streamLeave _ ho => exact hl _ _ ho
  | streamGo _ => exact hP
  | _ => rfl

end

theorem limit_pos (hm : 0 < setup.maxParallelism) (hc : ∀ n, dag.maxConcurrent = some n → 0 < n) :
    0 < setup.limit dag.maxConcurrent := by
  unfold DagSetup.limit
  cases hd : dag.maxConcurrent with
  | none => simpa using hm
  | some n =>
    have hn := hc n hd
    simp only [if_neg (by omega : n ≠ 0)]
    omega

end

/-- A MAP step that waits for a step with one retry. -/
def mapAfterRetry : DagDefinition :=
  { dagId := "d"
    steps := [{ stepName := "a", capability := "gpu", retryPolicy := ⟨1⟩ },
      { stepName := "m", capability := "gpu", stepKind := .map, mapOver := some "xs", dependsOn := ["a"] }] }

/-- The first call fails and is made again, then both items are answered, the second one first. -/
def mapAfterRetryMoves : List (ForkJoin.Move Signal) :=
  oneCall 0 (.error (.timeoutError "")) ++ [.turn 0 .go, .turn 0 (.reply (.ok (.obj []))), .gathered,
    .turn 0 .go, .turn 0 .go, .turn 0 .go, .turn 0 (.item 0 .go), .turn 0 (.item 1 .go),
    .turn 0 (.item 1 (.reply (.ok (.num 2)))), .turn 0 (.item 0 (.reply (.ok (.num 1)))), .turn 0 .go, .gathered]

def mapAfterRetryRun : Option DagRun :=
  DagSetup.after {} mapAfterRetry [("xs", .arr [.str "x", .str "y"])] mapAfterRetryMoves

end AsyncScheduler
