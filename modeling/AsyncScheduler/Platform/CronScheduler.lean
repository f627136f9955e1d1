import AsyncScheduler.Common.Loops
import AsyncScheduler.Platform.ScheduleRegistry
import AsyncScheduler.Shared.PyValue

/-!
# The cron scheduler

Every instance tries to take or to keep the leader key, and the one that has it fires the due
schedules: it creates a task and then advances the schedule.
-/

namespace AsyncScheduler

def cronLeaderKey : String := "cron_leader"

/-- What is used of `croniter`: an expression that it accepts has a next instant after every one. -/
structure Croniter where
  next : String → Option (ℚ → ℚ)
  later : ∀ expr f t, next expr = some f → t < f t

theorem everyMinute_later (expr : String) (f : ℚ → ℚ) (t : ℚ)
    (h : (if expr = "* * * * *" then some fun now => (minuteOf now : ℚ) + 60 else none) = some f) : t < f t := by
  split at h
  · cases h
    exact lt_minuteOf_add t
  · cases h

/-- A `croniter` that knows one expression. -/
def Croniter.everyMinute : Croniter where
  next expr := if expr = "* * * * *" then some fun now => minuteOf now + 60 else none
  later := everyMinute_later

structure CronScheduler where
  instanceId : String
  leaderTtl : Int := 90
  schedules : ScheduleRegistry := {}
  croniter : Croniter
  /-- `orjson.loads`; `none` is an error. -/
  loads : String → Option JsonValue

/-- A template for tasks of the type `gpu`. -/
def gpuTemplate : Json := .nested "\x7b'task_type': 'gpu'\x7d" (.obj [("task_type", .str "gpu")])

/-- An instance that knows one expression and can read no template that is a text. -/
def CronScheduler.named (instanceId : String) : CronScheduler where
  instanceId := instanceId
  croniter := .everyMinute
  loads _ := none

namespace Dict

/-- The attributes of the schedule proxy, with the defaults of `_fire_one`. -/
def scheduleId (d : Dict) : Json := d.getD "schedule_id" (.str "<_ScheduleProxy>")

def cronExpr (d : Dict) : Json := d.getD "cron_expr" (.str "")

def tenantId (d : Dict) : Json := d.getD "tenant_id" (.str "")

def taskTemplate (d : Dict) : Json := d.getD "task_template" (.str "\x7b\x7d")

end Dict

/-- The request that `_fire_one` makes for a schedule. -/
def cronTask (schedule : Dict) (now : ℚ) : CronTask :=
  ⟨schedule.tenantId, cronIdemKey schedule.scheduleId now, schedule.taskTemplate⟩

/-- `croniter(cron_expr, now).get_next(datetime)`. -/
def Croniter.getNext (cron : Croniter) (now : ℚ) : Json → Except PyErr ℚ
  | .str expr =>
    match cron.next expr with
    | some f => .ok (f now)
    | none => .error (.valueError "not acceptable")
  | .time _ => .error (.valueError "not acceptable")
  | _ => .error (.attributeError "object has no attribute 'lower'")

/-- The error that `create_task` raises for its keyword arguments before it writes anything. -/
def kwargsError (kwargs : JsonObj) : Option PyErr :=
  let capability := (kwargs.lookup "task_type").getD ((kwargs.lookup "capability").getD (.str ""))
  let delay := (kwargs.lookup "delay_seconds").getD .null
  if (kwargs.lookup "tenant_id").isSome || (kwargs.lookup "idempotency_key").isSome then
    some (.typeError "create_task() got multiple values for keyword argument")
  else if capability.truthy then
    match (kwargs.lookup "priority").getD (.str "normal") with
    | .str _ =>
      if delay.truthy && delay.asNumber.isNone then some (.typeError "'>' not supported between instances") else none
    | _ => some (.attributeError "object has no attribute 'lower'")
  else
    some (.valueError "task_type or capability must be provided in template")

namespace CronScheduler
variable (cs : CronScheduler)

/-- What `_fire_one` unpacks for `create_task`; a text that cannot be read counts as no arguments. -/
def template : Json → JsonValue
  | .null => .null
  | .bool b => .bool b
  | .num q => .num q
  | .str s => (cs.loads s).getD (.obj [])
  | .time _ => .obj []
  | .nested _ value => value

def refused (taskTemplate : Json) : Option PyErr :=
  match cs.template taskTemplate with
  | .obj kwargs => kwargsError kwargs
  | _ => some (.typeError "create_task() argument after ** must be a mapping")

theorem isException_of_refused {taskTemplate : Json} {e : PyErr} (h : cs.refused taskTemplate = some e) :
    e.isException = true := by
  have hc : cs.refused taskTemplate ≠ some .cancelledError := by
    unfold refused kwargsError
    dsimp only
    repeat' split
    all_goals simp
  cases e with
  | cancelledError => exact absurd h hc
  | _ => rfl

def tryBecomeLeader : Control Bool := do
  let ok ← Control.set cronLeaderKey (.text cs.instanceId) true (some cs.leaderTtl)
  if ok then
    pure true
  else
    let current ← Control.get cronLeaderKey
    if current = some (.text cs.instanceId) then
      Control.expire cronLeaderKey cs.leaderTtl
      pure true
    else
      pure false

def createTask (schedule : Dict) (now : ℚ) : Control Unit :=
  match cs.refused schedule.taskTemplate with
  | some e => .raise e
  | none => awaiting (.createTask (cronTask schedule now) schedule) fun _ => .ok ()

def advance (schedule : Dict) (now : ℚ) : Control Unit :=
  match cs.croniter.getNext now schedule.cronExpr with
  | .error e => .raise e
  | .ok nextFire =>
    match schedule.scheduleId.encoded with
    | none => .raise (.dataError "Invalid input of type")
    | some sid => cs.schedules.updateNextFire sid nextFire

def fireOne (schedule : Dict) (now : ℚ) : Control Unit := do
  let created ← exceptException ((cs.createTask schedule now).bind fun _ => pure true) fun _ => pure false
  if created then
    cs.advance schedule now
  else
    pure ()

def fireDueSchedules : Control Unit := do
  let now ← Control.now
  let due ← cs.schedules.listDue now
  Prog.forEach (cs.fireOne · now) due

def round : Control Unit := do
  let leader ← cs.tryBecomeLeader
  if leader then
    cs.fireDueSchedules
  else
    pure ()

/-- `_run_loop`, under its decorator. -/
def runLoop (ticks : List Unit) : Prog (LoopCommand ControlCommand) Fault ControlWorld PyErr Unit :=
  (suppressErrors (whileRunning (ticks.map fun _ => cs.round))).void

end CronScheduler

def ControlCommand.IsRead (c : ControlCommand) : Prop := c = .read

section
variable {I : ControlWorld → Prop}

theorem issues_reading {α : Type} (reply : ControlWorld → Except PyErr α) :
    Issues I ControlCommand.IsRead (fun _ => True) (awaiting .read reply : Control α) :=
  issues_awaiting rfl fun _ _ _ _ => trivial

namespace BaseRegistry
variable (reg : BaseRegistry)

theorem issues_list (t : String) : Issues I ControlCommand.IsRead (fun _ => True) (reg.list t) :=
  (issues_suppressErrors (issues_reading _)).weaken fun _ _ => trivial

theorem issues_listAllTenants : Issues I ControlCommand.IsRead (fun _ => True) reg.listAllTenants :=
  (issues_suppressErrors (issues_reading _)).weaken fun _ _ => trivial

end BaseRegistry

namespace ScheduleRegistry
variable (reg : ScheduleRegistry)

theorem issues_iterated {C : ControlCommand → Prop} (l : Option (List String)) :
    Issues I C (fun _ => True) (iterated l) := by
  cases l <;> trivial

theorem issues_scheduleKeys (ts : List String) : Issues I ControlCommand.IsRead (fun _ => True) (reg.scheduleKeys ts) := by
  induction ts with
  | nil => trivial
  | cons t ts ih =>
    refine (reg.base.issues_list t).bind fun sids _ => (issues_iterated sids).bind fun sids _ => ?_
    exact ih.bind fun _ _ => trivial

theorem due_of_parseDue {asOf : ℚ} {raws : List (Option Stored)} {due : List Dict} (h : parseDue asOf raws = .ok due) :
    ∀ d ∈ due, d.due asOf = true := by
  rw [parseDue_eq] at h
  cases ha : parseAll raws with
  | error e =>
    rw [ha] at h
    cases h
  | ok all =>
    rw [ha] at h
    cases h
    exact fun d hd => (List.mem_filter.mp hd).2

theorem issues_listDue (asOf : ℚ) :
    Issues I ControlCommand.IsRead (fun due => ∀ d ∈ due, d.due asOf = true) (reg.listDue asOf) := by
  refine reg.base.issues_listAllTenants.bind fun ts _ => (issues_iterated ts).bind fun ts _ => ?_
  refine (reg.issues_scheduleKeys ts).bind fun keys _ => ?_
  split
  · exact fun d hd => nomatch hd
  · refine (issues_reading _).bind fun raws _ => ?_
    split
    · next hdu => exact due_of_parseDue hdu
    · trivial

def AdvanceCommand : ControlCommand → Prop
  | .read | .stamp | .advanceNextFire _ _ _ => True
  | .hset k _ _ => k = scheduleTenantIdx
  | _ => False

theorem advanceCommand_of_read {c : ControlCommand} (h : c.IsRead) : AdvanceCommand c := by
  cases h
  trivial

theorem issues_advanceNextFire (t s : String) (u : ℚ) :
    Issues I AdvanceCommand (fun _ => True) (reg.advanceNextFire t s u) :=
  ⟨trivial, fun _ _ _ => issues_awaiting trivial fun _ _ _ _ => trivial⟩

theorem issues_scanTenants (s : String) (u : ℚ) (ts : List String) :
    Issues I AdvanceCommand (fun _ => True) (reg.scanTenants s u ts) := by
  induction ts with
  | nil => trivial
  | cons t ts ih =>
    refine ((reg.base.issues_list t).mono (fun _ => advanceCommand_of_read) fun _ h => h).bind fun ids _ => ?_
    split
    · trivial
    · split
      · refine (reg.issues_advanceNextFire t s u).bind fun _ _ => ?_
        exact issues_awaiting rfl fun _ _ _ _ => trivial
      · exact ih

theorem issues_updateNextFire (s : String) (u : ℚ) :
    Issues I AdvanceCommand (fun _ => True) (reg.updateNextFire s u) := by
  refine (issues_awaiting (Q := fun _ => True) trivial fun _ _ _ _ => trivial).bind fun found _ => ?_
  split
  · exact (reg.issues_advanceNextFire _ s u).bind fun _ _ => trivial
  · refine (reg.base.issues_listAllTenants.mono (fun _ => advanceCommand_of_read) fun _ h => h).bind fun ts _ => ?_
    exact (issues_iterated ts).bind fun ts _ => reg.issues_scanTenants s u ts

end ScheduleRegistry

namespace CronScheduler
variable (cs : CronScheduler)

theorem issues_advance (d : Dict) (now : ℚ) :
    Issues I ScheduleRegistry.AdvanceCommand (fun _ => True) (cs.advance d now) := by
  unfold advance
  split
  · trivial
  · split
    · trivial
    · exact cs.schedules.issues_updateNextFire _ _

def ElectionCommand (id : String) : ControlCommand → Prop
  | .read => True
  | .set k v nx _ => k = cronLeaderKey ∧ v = .text id ∧ nx = true
  | .expire k _ => k = cronLeaderKey
  | _ => False

theorem issues_tryBecomeLeader : Issues I (ElectionCommand cs.instanceId) (fun _ => True) cs.tryBecomeLeader := by
  refine (issues_awaiting (Q := fun _ => True) ⟨rfl, rfl, rfl⟩ fun _ _ _ _ => trivial).bind fun ok _ => ?_
  split
  · trivial
  · refine (issues_awaiting (Q := fun _ => True) trivial fun _ _ _ _ => trivial).bind fun current _ => ?_
    split
    · refine Issues.bind (Q := fun _ => True) ?_ fun _ _ => trivial
      exact issues_awaiting rfl fun _ _ _ _ => trivial
    · trivial

end CronScheduler

end

end AsyncScheduler
