import AsyncScheduler.Platform.QueueEffects
import AsyncScheduler.Properties.Honesty

/-!
# Losing the lock

The renewal loop notices that its lock is gone and ends.
-/

namespace AsyncScheduler
open AsyncScheduler.System

/-- One call of `execute`. -/
structure Execution where
  executor : TaskExecutor
  inputs : ExecInputs
  dag : Option DagDefinition
  context : DispatchArg

namespace Execution

def program (e : Execution) (x : String) : Py Unit := (e.executor.execute e.inputs x e.dag e.context).void

def lockText (e : Execution) : Blob := .text e.inputs.lockVal.text

end Execution

/-- The lock is evicted by an operator, or time passes. -/
inductive LockEvent where
  | evict
  | pass (t : ℚ)

def lockSystem (x : String) : System Command Fault World PyErr Execution LockEvent where
  apply := Command.apply
  program e := e.program x
  ambient
    | .evict => .keys [(lockKey x, .del)]
    | .pass t => .advance t

section
variable (x : String) (e : Execution) (steps : List Step)

def Step.LosesLock (t : Step) : Prop :=
  t.cmd = .keys [(lockKey x, .renew e.lockText e.executor.lockSeconds)] ∧ t.input = .ok ∧
    (luaRenew (lockKey x) e.lockText e.executor.lockSeconds t.pre.redis).1 = false

def StartsDag : Prop := ∃ u ∈ steps, u.cmd = .mark (.dagStarted x e.dag)

def LostWhileRunning : Prop :=
  ∃ before t after, steps = before ++ t :: after ∧ StartsDag x e before ∧ Step.LosesLock x e t

def AcquiresLock : Prop :=
  ∃ t ∈ steps, t.cmd = .keys [(lockKey x, .setNx e.lockText e.executor.lockSeconds)] ∧ t.input = .ok ∧
    t.pre.redis.existsKey (lockKey x) = false

/-- The call returns `completed`, or passes it to the callback. -/
def ReportsCompletion : Prop :=
  ∃ t ∈ steps, t.cmd = .mark (.executed x .completed) ∨ t.cmd = .mark (.announced x .completed)

end

/-- Whatever the two do and in whichever order: when the second acquires the lock after the first has
started its DAG, and the first is told that it has lost it, the first does not report completion. -/
def StopsOnLoss (x : String) (first second : Execution) : Prop :=
  ∀ (w : World) (ms ms' : List (Move Execution LockEvent Fault)),
    let s : Sys Command Fault World PyErr := ⟨w, [first.program x, second.program x], []⟩
    let steps := (lockSystem x).stepsOf 0 s (ms ++ ms')
    StartsDag x first ((lockSystem x).stepsOf 0 s ms) →
    AcquiresLock x second ((lockSystem x).stepsOf 1 ((lockSystem x).run s ms) ms') →
    LostWhileRunning x first steps → ¬ ReportsCompletion x steps

section
variable {x : String} {ex : TaskExecutor} {dag : Option DagDefinition} {context : DispatchArg} (inputs : ExecInputs)
variable {engine : DagEngine} {ctx : DagContext}

/-- Completion is reported after the engine has returned. -/
theorem issues_completed (he : ex.dag = some engine) :
    Issues (fun _ => True) (fun c => c = .mark (.executed x .completed) ∨ c = .mark (.announced x .completed) →
        ∃ ctx, (engine.execute inputs.schedules dag context).Yields ctx) (fun _ => True)
      (ex.execute inputs x dag context) := by
  unfold TaskExecutor.execute
  refine Issues.bind (Q := fun _ => True) (issues_await (by simp) fun _ _ _ _ => trivial) fun acquired _ => ?_
  split
  · refine (issues_immediately (Q := fun _ => True) (by simp) fun _ _ => trivial).bind fun _ _ => ?_
    refine (Issues.withBackground (ex.issues_renewLockLoop (by simp) (by simp) _)
      (body_reports he x dag context inputs.schedules (by simp) (by simp))).bind ?_
    rintro ⟨outcome, renewal⟩ ⟨hou, -⟩
    dsimp only
    have hr : TaskExecutor.resultStatus outcome = .completed →
        ∃ ctx, (engine.execute inputs.schedules dag context).Yields ctx := by
      intro hc
      cases outcome with
      | error e => cases hc
      | ok result =>
        rcases hou with ⟨-, ctx, -, hct⟩ | ⟨ho, -⟩
        · exact ⟨ctx, hct⟩
        · exact absurd hc ho
    refine (ex.issues_cleanup (by simp) (by simp) (by simp) renewal ?_).bind fun _ _ => ?_
    · simpa using hr
    · cases outcome with
      | ok result =>
        refine (issues_immediately (Q := fun _ => True) ?_ fun _ _ => trivial).bind fun _ _ => trivial
        simpa [TaskExecutor.resultStatus] using hr
      | error e => trivial
  · trivial

theorem issues_without_engine (hn : ex.dag = none) :
    Issues (fun _ => True) (fun c => c ≠ .mark (.dagStarted x dag)) (fun _ => True)
      (ex.execute inputs x dag context) := by
  have hb : Issues (fun _ => True) (fun c => c ≠ .mark (.dagStarted x dag)) (fun _ => True)
      (ex.body inputs.schedules x dag context) := by
    refine issues_exceptException ?_ fun e => trivial
    refine (issues_query (Q := fun _ => True) (by simp) fun _ _ => trivial).bind fun cancelled _ => ?_
    split
    · trivial
    · rw [hn]
      trivial
  unfold TaskExecutor.execute
  refine Issues.bind (Q := fun _ => True) (issues_await (by simp) fun _ _ _ _ => trivial) fun acquired _ => ?_
  split
  · refine (issues_immediately (Q := fun _ => True) (by simp) fun _ _ => trivial).bind fun _ _ => ?_
    refine (Issues.withBackground (ex.issues_renewLockLoop (by simp) (by simp) _) hb).bind ?_
    rintro ⟨outcome, renewal⟩ -
    dsimp only
    refine (ex.issues_cleanup (by simp) (by simp) (by simp) renewal (by simp)).bind fun _ _ => ?_
    cases outcome with
    | ok result => exact (issues_immediately (Q := fun _ => True) (by simp) fun _ _ => trivial).bind fun _ _ => trivial
    | error e => trivial
  · trivial

theorem onlyLast_body (he : ex.dag = some engine)
    (hre : engine.execute inputs.schedules dag context = .ret ctx) :
    OnlyLast (· = .mark (.dagStarted x dag)) (ex.body inputs.schedules x dag context) := by
  unfold TaskExecutor.body exceptException
  rw [he]
  dsimp only
  rw [hre]
  intro i w
  refine ⟨?_, fun hr => by cases hr⟩
  cases i with
  | ok =>
    change OnlyLast _ (Prog.handle (if Blob.truthy (w.redis.get (cancelKey x)) then _ else _) _)
    split
    · trivial
    · exact fun _ _ => ⟨trivial, fun _ => .inl ⟨_, rfl⟩⟩
  | fail applied => trivial
  | cancel applied => trivial

theorem neverAfter_execute (he : ex.dag = some engine)
    (hr : engine.execute inputs.schedules dag context = .ret ctx) : NeverAfter (· = .mark (.dagStarted x dag))
      (· = .keys [(lockKey x, .renew (.text inputs.lockVal.text) ex.lockSeconds)])
      (ex.execute inputs x dag context) := by
  unfold TaskExecutor.execute
  refine NeverAfter.bind_of_issues (Q := fun _ => True) (issues_await (by simp) fun _ _ _ _ => trivial)
    fun acquired _ => ?_
  split
  · refine NeverAfter.bind_of_issues (Q := fun _ => True) (issues_immediately (by simp) fun _ _ => trivial) fun _ _ => ?_
    refine NeverAfter.withBackground (ex.issues_renewLockLoop (by simp) (by simp) _)
      (onlyLast_body inputs he hr) (fun r => ?_) _
    obtain ⟨outcome, renewal⟩ := r
    refine (ex.issues_cleanup (by simp) (by simp) (by simp) renewal (by simp)).bind fun _ _ => ?_
    cases outcome with
    | ok result => exact (issues_immediately (Q := fun _ => True) (by simp) fun _ _ => trivial).bind fun _ _ => trivial
    | error e => trivial
  · trivial

end

def EndsAtOnce (engine : DagEngine) (dag : Option DagDefinition) (context : DispatchArg) : Prop :=
  ∀ schedules c n ctx, engine.execute schedules dag context = .act c n →
    ¬ (engine.execute schedules dag context).Yields ctx

theorem stopsOnLoss_of_endsAtOnce {x : String} {first : Execution}
    (h : ∀ engine, first.executor.dag = some engine → EndsAtOnce engine first.dag first.context) (second : Execution) :
    StopsOnLoss x first second := by
  intro w ms ms' s steps hb ha hlo hr
  obtain ⟨q, -, hv⟩ := steps_stepsOf (S := lockSystem x) (ms ++ ms') (s := s) (j := 0)
    (p := first.program x) rfl
  obtain ⟨p', hs⟩ := Steps.void hv
  obtain ⟨before, t, after, hsp, hst, hl⟩ := hlo
  change Steps _ steps p' at hs
  rw [hsp] at hs
  cases hdag : first.executor.dag with
  | none =>
    obtain ⟨u, hu, hm⟩ := hst
    exact hs.of_issues (issues_without_engine first.inputs hdag) u (by simp [hu]) hm
  | some engine =>
    obtain ⟨u, hu, hc⟩ := hr
    rw [hsp] at hu
    obtain ⟨ctx, hct⟩ := hs.of_issues (issues_completed first.inputs hdag) u hu hc
    -- the engine has returned, so it returned at once, and the renewal had no turn
    cases he : engine.execute first.inputs.schedules first.dag first.context with
    | ret ctx' => exact (neverAfter_execute first.inputs hdag he).steps hs hst hl.1
    | raise e =>
      rw [he] at hct
      cases hct
    | act c n => exact h engine hdag _ c n ctx he hct

theorem path_runLocal {κ' γ α : Type} {step : κ' → Fault → γ → γ} {s : γ} {p : Prog κ' Fault γ PyErr α}
    {r : Except PyErr α × γ} (h : (Prog.runLocal step Command.read s p : Py (Except PyErr α × γ)).Yields r)
    (w : World) : ∃ steps w', Path Command.apply (Prog.runLocal step Command.read s p) w steps (.ret r) w' := by
  induction p generalizing s w with
  | ret a =>
    cases h
    exact ⟨[], w, .refl _ _⟩
  | raise e =>
    cases h
    exact ⟨[], w, .refl _ _⟩
  | act d n ih =>
    cases h with
    | act i s' h =>
      obtain ⟨steps, w', hp⟩ := ih i s h (Command.apply .read i w)
      exact ⟨_, w', .cons i hp⟩

theorem path_engine {engine : DagEngine} {schedules : List (List Nat)} {dag : Option DagDefinition}
    {context : DispatchArg} {ctx : DagContext} (h : (engine.execute schedules dag context).Yields ctx) (w : World) :
    ∃ steps w', Path Command.apply (engine.execute schedules dag context) w steps (.ret ctx) w' := by
  cases dag with
  | none => cases h
  | some dag =>
    unfold DagEngine.execute at h ⊢
    dsimp only at h ⊢
    split at h
    · rename_i he
      rw [if_pos he]
      cases h
      exact ⟨[], w, .refl _ _⟩
    · rename_i hw
      rw [if_neg hw]
      obtain ⟨⟨outcome, ctx'⟩, hl, hr⟩ := Prog.Yields.of_bind h
      obtain ⟨steps, w', hp⟩ := path_runLocal hl w
      cases outcome with
      | ok status =>
        cases hr
        exact ⟨_, w', hp.bind (.refl _ _)⟩
      | error e => cases hr

section
variable {x : String} {ex : TaskExecutor} {engine : DagEngine} (hdag : ex.dag = some engine)
  (schedules : List (List Nat)) (dag : Option DagDefinition) (context : DispatchArg) (lockVal : Uuid)
variable {w : World} {ctx : DagContext} {c : Command} {n : Fault → World → Py DagContext}

def engineOn (engine : DagEngine) (schedules : List (List Nat)) (dag : Option DagDefinition) (context : DispatchArg) :
    Py ExecResult :=
  exceptException
    ((engine.execute schedules dag context).bind fun ctx => .ret { status := .completed, dagResult := some ctx })
    fun e => .ret { status := .failed, error := some e.str }

include hdag in
theorem path_body_start (hf : w.redis.get (cancelKey x) = none) :
    Path Command.apply (ex.body schedules x dag context) w
      [⟨.read, .ok, w⟩, ⟨.mark (.dagStarted x dag), .ok, w⟩] (engineOn engine schedules dag context) w := by
  unfold TaskExecutor.body engineOn exceptException
  rw [hdag]
  refine Path.handle_left _ ((path_query w _).bind ?_)
  rw [hf]
  exact (path_immediately w (.mark (.dagStarted x dag)) fun _ => ()).bind (.refl _ _)

def finish (ex : TaskExecutor) (x : String) (lockVal : Uuid) : Except PyErr ExecResult × Py Unit → Py ExecResult
  | (outcome, renewal) => do
    ex.cleanup x lockVal renewal (TaskExecutor.resultStatus outcome)
    match outcome with
    | .ok result =>
      mark (.executed x result.status)
      pure result
    | .error e => .raise e

theorem path_cleanup (ex : TaskExecutor) (x : String) (lockVal : Uuid) (status : ExecStatus) (w : World) :
    ∃ steps w', Path Command.apply (ex.cleanup x lockVal (.ret ()) status) w steps (.ret ()) w' := by
  have hr (w : World) := (path_perform w (.keys [(lockKey x, .release (.text lockVal.text))])).handle
    fun e => if e.isException then .ret () else .raise e
  have hc (w : World) := (path_query w fun _ => ()).handle fun e => if e.isException then .ret () else .raise e
  unfold TaskExecutor.cleanup
  cases hca : ex.hasCallback with
  | true =>
    exact ⟨_, _, (path_immediately _ _ _).bind ((Path.refl _ _).bind ((hr _).bind
      ((path_immediately _ (.mark (.announced x status)) _).bind (hc _))))⟩
  | false => exact ⟨_, _, (path_immediately _ _ _).bind ((Path.refl _ _).bind ((hr _).bind (.refl _ _)))⟩

theorem path_finish (ex : TaskExecutor) (x : String) (lockVal : Uuid) (result : ExecResult) (w : World) :
    ∃ steps w' u, Path Command.apply (finish ex x lockVal (.ok result, .ret ())) w steps (.ret result) w' ∧
      u ∈ steps ∧ u.cmd = .mark (.executed x result.status) := by
  obtain ⟨steps, w', hc⟩ := path_cleanup ex x lockVal result.status w
  refine ⟨_, _, ⟨.mark (.executed x result.status), .ok, w'⟩,
    hc.bind ((path_immediately w' (.mark (.executed x result.status)) fun _ => ()).bind (.refl _ _)), ?_, rfl⟩
  simp

def lateRenewal (lockVal : Uuid) (schedules : List (List Nat)) : ExecInputs :=
  ⟨lockVal, [false, false, true, true], schedules⟩

include hdag in
theorem path_execute_start (hl : w.redis.existsKey (lockKey x) = false)
    (hc : w.redis.get (cancelKey x) = none) :
    ∃ steps w', Path Command.apply (ex.execute (lateRenewal lockVal schedules) x dag context) w steps
      ((Prog.withBackground [true, true] (ex.renewLockLoop x lockVal 4)
        (engineOn engine schedules dag context)).bind (finish ex x lockVal)) w' ∧
      ∃ u ∈ steps, u.cmd = .mark (.dagStarted x dag) := by
  let acquire : Command := .keys [(lockKey x, .setNx (.text lockVal.text) ex.lockSeconds)]
  let w₂ := (w.exec acquire).exec (.memory (.addActive ex.id x))
  have hf : w₂.redis.get (cancelKey x) = none := by
    have hs : w₂.redis.strings (cancelKey x) = w.redis.strings (cancelKey x) :=
      Redis.strings_setNx_of_ne _ _ _ _ _ (cancelKey_ne_lockKey x x)
    rw [← hc]
    exact congrArg (Option.map Prod.fst) hs
  have ha : Path Command.apply (await acquire fun w => .ok !w.redis.existsKey (lockKey x)) w
      [⟨acquire, .ok, w⟩] (.ret true) (w.exec acquire) := path_await w acquire (by simp [hl])
  have hm := path_immediately (w.exec acquire) (.memory (.addActive ex.id x)) fun _ => ()
  have hb := (path_body_start hdag schedules dag context hf).main (ex.renewLockLoop x lockVal 4) [true, true]
  refine ⟨_, w₂, ha.bind (hm.bind (hb.bind_left (finish ex x lockVal))), ?_⟩
  exact ⟨⟨.mark (.dagStarted x dag), .ok, w₂⟩, by simp, rfl⟩

theorem path_renewal (ex : TaskExecutor) (hl : w.redis.get (lockKey x) = none) (rounds : Nat) :
    Path Command.apply (ex.renewLockLoop x lockVal (rounds + 1)) w
      [⟨.read, .ok, w⟩, ⟨.keys [(lockKey x, .renew (.text lockVal.text) ex.lockSeconds)], .ok, w⟩] (.ret ())
      (w.exec (.keys [(lockKey x, .renew (.text lockVal.text) ex.lockSeconds)])) := by
  let renew : Command := .keys [(lockKey x, .renew (.text lockVal.text) ex.lockSeconds)]
  have hr : Path Command.apply
      (await renew fun w => .ok (luaRenew (lockKey x) (.text lockVal.text) ex.lockSeconds w.redis).1) w
      [⟨renew, .ok, w⟩] (.ret false) (w.exec renew) := path_await w renew (by simp [luaRenew, hl])
  exact (path_query w fun _ => ()).bind (hr.bind (.refl _ _))

theorem path_execute_end (ex : TaskExecutor) (hct : (engine.execute schedules dag context).Yields ctx) (w : World) :
    ∃ steps w' r u, Path Command.apply
      ((Prog.withBackground [] (.ret ()) (engineOn engine schedules dag context)).bind (finish ex x lockVal))
      w steps (.ret r) w' ∧ u ∈ steps ∧ u.cmd = .mark (.executed x .completed) := by
  obtain ⟨steps, w₁, he⟩ := path_engine hct w
  let result : ExecResult := { status := .completed, dagResult := some ctx }
  have hr := he.bind (f := fun ctx => .ret ({ status := .completed, dagResult := some ctx } : ExecResult))
    (.refl _ _)
  have hon : Path Command.apply (engineOn engine schedules dag context) w (steps ++ []) (.ret result) w₁ :=
    hr.handle _
  have hm : Path Command.apply (Prog.withBackground [] (.ret ()) (engineOn engine schedules dag context)) w
      (steps ++ [] ++ []) (.ret (.ok result, .ret ())) w₁ := hon.settle.bind (.refl _ _)
  obtain ⟨steps', w', u, hf, hu, hc⟩ := path_finish ex x lockVal result w₁
  exact ⟨_, w', result, u, hm.bind hf, List.mem_append_right _ hu, hc⟩

theorem engineOn_of_act (ha : engine.execute schedules dag context = .act c n) :
    ∃ n', engineOn engine schedules dag context = .act c n' := by
  unfold engineOn
  rw [ha]
  exact ⟨_, rfl⟩

include hdag in
/-- An execution whose engine can return after it has awaited something loses its lock to another one
and completes. -/
theorem exists_completed_after_loss (x : String) (hact : engine.execute schedules dag context = .act c n)
    (hc : (engine.execute schedules dag context).Yields ctx) :
    ¬ StopsOnLoss x ⟨ex, lateRenewal .one schedules, dag, context⟩ ⟨ex, ⟨.two, [], []⟩, dag, context⟩ := by
  let first : Execution := ⟨ex, lateRenewal .one schedules, dag, context⟩
  let second : Execution := ⟨ex, ⟨.two, [], []⟩, dag, context⟩
  let done : ExecResult → Py Unit := fun _ => .ret ()
  -- the first starts its DAG, and its lock is evicted
  obtain ⟨steps₁, w₁, hsta, u, hu, hst⟩ :=
    path_execute_start (x := x) hdag schedules dag context .one (w := World.empty) rfl rfl
  let w₂ := w₁.exec (.keys [(lockKey x, .del)])
  have hg : w₂.redis.strings (lockKey x) = none := (Redis.strings_del ..).trans (if_pos rfl)
  have hget : w₂.redis.get (lockKey x) = none := congrArg (Option.map Prod.fst) hg
  -- the renewal notices it
  let renew : Command := .keys [(lockKey x, .renew (.text Uuid.one.text) ex.lockSeconds)]
  let w₃ := w₂.exec renew
  have hs : w₃.redis.strings (lockKey x) = none := by
    have hre : w₃.redis = w₂.redis := congrArg Prod.snd (if_neg (by simp [hget]))
    rw [hre, hg]
  obtain ⟨n', hon⟩ := engineOn_of_act schedules dag context hact
  have hr := ((path_renewal .one ex hget 3).background c n' []).bind_left (finish ex x .one)
  rw [← hon] at hr
  -- the second acquires the lock
  let acquire : Command := .keys [(lockKey x, .setNx second.lockText ex.lockSeconds)]
  have ha : Path Command.apply (await acquire fun w => .ok !w.redis.existsKey (lockKey x)) w₃
      [⟨acquire, .ok, w₃⟩] (.ret true) (w₃.exec acquire) := path_await w₃ acquire (by simp [Redis.existsKey, hs])
  -- the first goes on to its end
  obtain ⟨steps₅, w₅, r, v, hen, hv, hex⟩ :=
    path_execute_end (x := x) schedules dag context .one ex hc (w₃.exec acquire)
  -- one interleaving of all this
  let S := lockSystem x
  let z : Sys Command Fault World PyErr := ⟨World.empty, [first.program x, second.program x], []⟩
  obtain ⟨ms₁, -, hw₁, hp₁, -, ho₁, -⟩ := (hsta.bind_left done).exists_run S 0 (z := z) rfl rfl
  let z₂ := S.run (S.run z ms₁) [.env .evict .ok]
  have hw₂ : z₂.world = w₂ := congrArg (fun w => w.exec (.keys [(lockKey x, .del)])) hw₁
  have hp₂ : z₂.procs = [_, second.program x] := hp₁
  obtain ⟨ms₃, -, hw₃, hp₃, -, ho₃, -⟩ := (hr.bind_left done).exists_run S 0 hw₂ (congrArg (·[0]?) hp₂)
  let z₃ := S.run z₂ ms₃
  have hp₃' : z₃.procs = [_, second.program x] := hp₃.trans (congrArg (List.set · 0 _) hp₂)
  obtain ⟨ms₄, -, hw₄, hp₄, -, how₄, ho₄⟩ := ((ha.bind_left _).bind_left done).exists_run S 1
    (z := z₃) hw₃ (congrArg (·[1]?) hp₃')
  have hp₄' : (S.run z₃ ms₄).procs = [_, _] := hp₄.trans (congrArg (List.set · 1 _) hp₃')
  obtain ⟨ms₅, -, -, -, -, ho₅, -⟩ := (hen.bind_left done).exists_run S 0 (z := S.run z₃ ms₄) hw₄
    (congrArg (·[0]?) hp₄')
  have hru : S.run z (ms₁ ++ ([.env .evict .ok] ++ ms₃)) = z₃ := by rw [run_append, run_append]
  have hl : S.stepsOf 0 z (ms₁ ++ ([.env .evict .ok] ++ ms₃)) =
      steps₁ ++ [⟨.read, .ok, w₂⟩, ⟨renew, .ok, w₂⟩] := by
    rw [stepsOf_append, stepsOf_append, ho₁, ho₃]
    rfl
  have hw : S.stepsOf 1 z₃ (ms₄ ++ ms₅) = ⟨acquire, .ok, w₃⟩ :: S.stepsOf 1 (S.run z₃ ms₄) ms₅ := by
    rw [stepsOf_append, how₄]
    rfl
  have he : S.stepsOf 0 z₃ (ms₄ ++ ms₅) = steps₅ := by
    rw [stepsOf_append, ho₄ 0 (by decide), ho₅]
    rfl
  have hb : StartsDag x first (S.stepsOf 0 z (ms₁ ++ ([.env .evict .ok] ++ ms₃))) := by
    rw [hl]
    exact ⟨u, by simp [hu], hst⟩
  have hac : AcquiresLock x second
      (S.stepsOf 1 (S.run z (ms₁ ++ ([.env .evict .ok] ++ ms₃))) (ms₄ ++ ms₅)) := by
    rw [hru, hw]
    exact ⟨⟨acquire, .ok, w₃⟩, by simp, rfl, rfl, by simp [Redis.existsKey, hs]⟩
  have hal : S.stepsOf 0 z (ms₁ ++ ([.env .evict .ok] ++ ms₃) ++ (ms₄ ++ ms₅)) =
      steps₁ ++ [⟨.read, .ok, w₂⟩, ⟨renew, .ok, w₂⟩] ++ steps₅ := by
    rw [stepsOf_append, hru, hl, he]
  have hlo : LostWhileRunning x first
      (S.stepsOf 0 z (ms₁ ++ ([.env .evict .ok] ++ ms₃) ++ (ms₄ ++ ms₅))) := by
    rw [hal]
    refine ⟨steps₁ ++ [⟨.read, .ok, w₂⟩], ⟨renew, .ok, w₂⟩, steps₅, by simp, ⟨u, by simp [hu], hst⟩, rfl, rfl, ?_⟩
    simp [luaRenew, hget]
  have hrep : ReportsCompletion x (S.stepsOf 0 z (ms₁ ++ ([.env .evict .ok] ++ ms₃) ++ (ms₄ ++ ms₅))) := by
    rw [hal]
    exact ⟨v, List.mem_append_right _ hv, .inl hex⟩
  intro hsto
  exact hsto World.empty _ _ hb hac hlo hrep

end

/-- An execution stops on the loss of its lock exactly when its engine cannot return once it has
awaited anything. -/
theorem lost_lock_stops_iff (x : String) (ex : TaskExecutor) (dag : Option DagDefinition) (context : DispatchArg) :
    (∀ inputs second, StopsOnLoss x ⟨ex, inputs, dag, context⟩ second) ↔
      ∀ engine, ex.dag = some engine → EndsAtOnce engine dag context := by
  constructor
  · intro h engine hdag schedules c n ctx ha hc
    exact exists_completed_after_loss hdag schedules dag context x ha hc (h _ _)
  · intro h inputs second
    exact stopsOnLoss_of_endsAtOnce h second

theorem LostWhileRunning.of_getElem {x : String} {e : Execution} {steps : List Step} (k : Nat) (hk : k < steps.length)
    (hb : StartsDag x e (steps.take k)) (hl : Step.LosesLock x e steps[k]) : LostWhileRunning x e steps := by
  refine ⟨steps.take k, steps[k], steps.drop (k + 1), ?_, hb, hl⟩
  rw [← List.drop_eq_getElem_cons, List.take_append_drop]

def awaitingExecutor : TaskExecutor :=
  { TaskExecutor.idle with dag := some ⟨fun _ _ => .act id fun _ _ => .ret ()⟩ }

def losingExecution : Execution :=
  ⟨awaitingExecutor, lateRenewal .one [], some oneStepDag, .function "dispatch"⟩

def winningExecution : Execution := ⟨awaitingExecutor, ⟨.two, [], []⟩, some oneStepDag, .function "dispatch"⟩

def losingMoves : List (Move Execution LockEvent Fault) :=
  List.replicate 4 (.step 0 .ok) ++ [.env .evict .ok] ++ List.replicate 2 (.step 0 .ok)

def winningMoves : List (Move Execution LockEvent Fault) :=
  List.replicate 12 (.step 1 .ok) ++ List.replicate 12 (.step 0 .ok)

theorem both_completed_after_loss :
    let S := lockSystem "task-1"
    let s : Sys Command Fault World PyErr :=
      ⟨World.empty, [losingExecution.program "task-1", winningExecution.program "task-1"], []⟩
    let steps := S.stepsOf 0 s (losingMoves ++ winningMoves)
    let steps' := S.stepsOf 1 (S.run s losingMoves) winningMoves
    StartsDag "task-1" losingExecution (S.stepsOf 0 s losingMoves) ∧
    LostWhileRunning "task-1" losingExecution steps ∧ AcquiresLock "task-1" winningExecution steps' ∧
    ReportsCompletion "task-1" steps ∧ ReportsCompletion "task-1" steps' := by
  refine ⟨?_, ?_, ?_, ?_, ?_⟩
  · unfold StartsDag
    decide +kernel
  · refine LostWhileRunning.of_getElem 5 (by decide +kernel) ?_ ?_
    · unfold StartsDag
      decide +kernel
    · unfold Step.LosesLock
      decide +kernel
  · unfold AcquiresLock
    decide +kernel
  · unfold ReportsCompletion
    decide +kernel
  · unfold ReportsCompletion
    decide +kernel

end AsyncScheduler
