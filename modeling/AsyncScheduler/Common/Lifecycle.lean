import AsyncScheduler.Common.ErrorHandling
import Mathlib.Data.List.Infix

/-!
# Lifecycle of the background services

The lifecycle manager starts the registered services one after the other. A service starts by
creating a task for its loop. They are stopped phase by phase.
-/

namespace AsyncScheduler

section
variable {κ σ ε α β : Type} (ready : κ → σ → Bool) (apply : κ → σ → σ)

def Prog.untilBlocked : Prog κ Unit σ ε α → σ → Prog κ Unit σ ε α × σ
  | .act c n, s => if ready c s then (n () s).untilBlocked (apply c s) else (.act c n, s)
  | .ret a, s => (.ret a, s)
  | .raise e, s => (.raise e, s)

variable {ready apply} {s s' : σ} {p : Prog κ Unit σ ε α}

theorem Prog.untilBlocked_bind {a : α} (h : p.untilBlocked ready apply s = (.ret a, s')) (f : α → Prog κ Unit σ ε β) :
    (p.bind f).untilBlocked ready apply s = (f a).untilBlocked ready apply s' := by
  induction p generalizing s with
  | ret b =>
    cases h
    rfl
  | raise e => cases h
  | act c n ih =>
    rw [untilBlocked] at h
    rw [Prog.bind, untilBlocked]
    split at h
    · next hr =>
      rw [if_pos hr]
      exact ih () s h
    · cases h

theorem Prog.untilBlocked_bind_blocked {c : κ} {n : Unit → σ → Prog κ Unit σ ε α}
    (h : p.untilBlocked ready apply s = (.act c n, s')) (f : α → Prog κ Unit σ ε β) :
    (p.bind f).untilBlocked ready apply s = ((Prog.act c n).bind f, s') := by
  induction p generalizing s with
  | ret b => cases h
  | raise e => cases h
  | act c' n' ih =>
    rw [untilBlocked] at h
    rw [Prog.bind, untilBlocked]
    split at h
    · next hr =>
      rw [if_pos hr]
      exact ih () s h
    · next hr =>
      rw [if_neg hr]
      cases h
      rfl

theorem Prog.forEach_append_bind (f : β → Prog κ Unit σ ε Unit) (l l' : List β) (rest : Unit → Prog κ Unit σ ε α) :
    (Prog.forEach f (l ++ l')).bind rest = (Prog.forEach f l).bind fun _ => (Prog.forEach f l').bind rest := by
  induction l with
  | nil => rfl
  | cons b l ih =>
    rw [List.cons_append, Prog.forEach, Prog.forEach, Prog.bind_assoc, Prog.bind_assoc]
    exact congrArg _ (funext fun _ => ih)

end

inductive Service where
  | taskReconciler | cronScheduler | compensationService | callbackDispatcher
  deriving DecidableEq, Repr

inductive LoopTask where
  | running
  | done (outcome : Except PyErr Unit)

structure Runtime where
  -- The flag `_running` of each service
  running : Service → Bool
  -- The task of its loop
  loop : Service → Option LoopTask
  managerStarted : Bool
  -- Whose `start` was called, in order
  calls : List Service

def Runtime.fresh : Runtime := ⟨fun _ => false, fun _ => none, false, []⟩

inductive LifecycleCommand where
  | read
  | call (s : Service)
  | setRunning (s : Service)
  -- `asyncio.create_task` of the loop
  | createTask (s : Service)
  -- `await self._loop_task`
  | awaitLoop (s : Service)
  | setStarted
  deriving DecidableEq

namespace LifecycleCommand

def ready (c : LifecycleCommand) (w : Runtime) : Bool :=
  match c with
  | .awaitLoop s =>
    match w.loop s with
    | some .running => false
    | _ => true
  | _ => true

def apply (c : LifecycleCommand) (w : Runtime) : Runtime :=
  match c with
  | .call s => { w with calls := w.calls ++ [s] }
  | .setRunning s => { w with running := Function.update w.running s true }
  | .createTask s => { w with loop := Function.update w.loop s (some .running) }
  | .setStarted => { w with managerStarted := true }
  | .read | .awaitLoop _ => w

end LifecycleCommand

abbrev Lifecycle := Prog LifecycleCommand Unit Runtime PyErr

def Lifecycle.perform (c : LifecycleCommand) : Lifecycle Unit := .act c fun _ _ => .ret ()

def Lifecycle.get {α : Type} (f : Runtime → α) : Lifecycle α := .act .read fun _ w => .ret (f w)

def Lifecycle.awaitLoop (s : Service) : Lifecycle Unit :=
  .act (.awaitLoop s) fun _ w =>
    match w.loop s with
    | some (.done (.error e)) => .raise e
    | _ => .ret ()

namespace Service

def startLoop (s : Service) : Lifecycle Unit := do
  let running ← Lifecycle.get (·.running s)
  if running then
    pure ()
  else
    Lifecycle.perform (.setRunning s)
    Lifecycle.perform (.createTask s)

/-- The methods `start` of the four services, which the adapters call. -/
def start : Service → Lifecycle Unit
  | .taskReconciler => (suppressErrors (startLoop .taskReconciler)).void
  | .cronScheduler => do
    Lifecycle.perform (.setRunning .cronScheduler)
    Lifecycle.perform (.createTask .cronScheduler)
    Lifecycle.awaitLoop .cronScheduler
  | .compensationService => startLoop .compensationService
  | .callbackDispatcher => startLoop .callbackDispatcher

end Service

namespace LifecycleManager

def startResource (s : Service) : Lifecycle Unit :=
  exceptException
    (do
      Lifecycle.perform (.call s)
      s.start)
    fun _ => pure ()

def startAll (resources : List Service) : Lifecycle Unit := do
  let started ← Lifecycle.get (·.managerStarted)
  if started then
    pure ()
  else
    Prog.forEach startResource resources
    Lifecycle.perform .setStarted

end LifecycleManager

structure BackgroundSettings where
  reconcileEnabled : Bool
  cronEnabled : Bool
  deriving DecidableEq, Repr

/-- Which services the container has. -/
structure ServiceContainer where
  taskReconciler : Bool
  cronScheduler : Bool
  compensationService : Bool
  callbackDispatcher : Bool
  deriving DecidableEq, Repr

def registerControlPlaneResources (container : ServiceContainer) (settings : BackgroundSettings) : List Service :=
  (if settings.reconcileEnabled && container.taskReconciler then [.taskReconciler] else []) ++
  (if settings.cronEnabled && container.cronScheduler then [.cronScheduler] else []) ++
  (if container.compensationService then [.compensationService] else []) ++
  (if container.callbackDispatcher then [.callbackDispatcher] else [])

theorem nodup_registered (container : ServiceContainer) (settings : BackgroundSettings) :
    (registerControlPlaneResources container settings).Nodup := by
  unfold registerControlPlaneResources
  split <;> split <;> split <;> split <;> decide

/-- `shutdown_phase` may be `None` where a class overrides it; `stopError` is what `stop` raises. -/
structure ManagedResource where
  name : String
  resourceType : String := "generic"
  shutdownPhase : Option Int := some 40
  stopError : Option PyErr := none
  deriving DecidableEq

def ManagedResource.mentions (r : ManagedResource) (words : List String) : Bool :=
  words.any fun word => word.toList <:+: r.resourceType.toLower.toList ∨ word.toList <:+: r.name.toLower.toList

def ManagedResource.inferPhase (r : ManagedResource) : Int :=
  if r.mentions ["consumer"] then 10
  else if r.mentions ["processor", "executor", "reconciler"] then 20
  else if r.mentions ["scheduler", "cron"] then 30
  else 40

inductive ShutdownEvent where
  | stop (r : ManagedResource)
  | sleep
  deriving DecidableEq

/-- Each `stop` is called under `except Exception`, which a cancellation passes. -/
def performShutdown : List ShutdownEvent → List ShutdownEvent × Except PyErr Unit
  | [] => ([], .ok ())
  | .sleep :: rest => (.sleep :: (performShutdown rest).1, (performShutdown rest).2)
  | .stop r :: rest =>
    match r.stopError.filter fun e => !e.isException with
    | some e => ([.stop r], .error e)
    | none => (.stop r :: (performShutdown rest).1, (performShutdown rest).2)

structure LifecycleManager where
  resources : List ManagedResource
  started : Bool
  stopping : Bool
  deriving DecidableEq

namespace LifecycleManager

def plan (phased : List (ManagedResource × Int)) : List ShutdownEvent :=
  let group (p : Int → Bool) := (phased.filter fun x => p x.2).map Prod.fst
  let consumers := group (· = 10)
  let processors := group (· = 20)
  consumers.map .stop ++ (if consumers = [] ∧ processors = [] then [] else [.sleep]) ++
    (processors ++ group (· = 30) ++ group fun p => p ∉ [10, 20, 30]).map .stop

/-- `stop_all`, with the loop that sorts the resources into their phases. -/
def stopAllBy (classify : List ManagedResource → Except PyErr (List (ManagedResource × Int))) (m : LifecycleManager) :
    List ShutdownEvent × Except PyErr Unit × LifecycleManager :=
  if m.stopping ∨ !m.started then ([], .ok (), m)
  else
    match classify m.resources with
    | .error e => ([], .error e, { m with stopping := true })
    | .ok phased =>
      match performShutdown (plan phased) with
      | (events, .ok ()) => (events, .ok (), { m with started := false, stopping := false })
      | (events, .error e) => (events, .error e, { m with stopping := true })

def stopAll : LifecycleManager → List ShutdownEvent × Except PyErr Unit × LifecycleManager :=
  stopAllBy fun rs => .ok (rs.map fun r => (r, r.shutdownPhase.getD r.inferPhase))

/-- runtime-core asks the manager itself for the default phase, an attribute that only resources have. -/
def stopAllPackaged : LifecycleManager → List ShutdownEvent × Except PyErr Unit × LifecycleManager :=
  stopAllBy fun
    | [] => .ok []
    | _ :: _ => .error (.attributeError "'LifecycleManager' object has no attribute 'PHASE_OTHER'")

/-- Ordinary exceptions of a resource do not stop the shutdown. -/
theorem performShutdown_ordinary (events : List ShutdownEvent)
    (h : ∀ r, .stop r ∈ events → ∀ e, r.stopError = some e → e.isException = true) :
    performShutdown events = (events, .ok ()) := by
  induction events with
  | nil => rfl
  | cons ev rest ih =>
    have hr := ih fun r hm => h r (List.mem_cons_of_mem _ hm)
    cases ev with
    | sleep => simp only [performShutdown, hr]
    | stop r =>
      have hn : (r.stopError.filter fun e => !e.isException) = none := by
        rw [Option.filter_eq_none_iff]
        intro e he
        simp [h r List.mem_cons_self e he]
      simp only [performShutdown, hn, hr]

theorem mem_of_mem_plan {rs : List ManagedResource} {f : ManagedResource → Int} {r : ManagedResource}
    (h : .stop r ∈ plan (rs.map fun r => (r, f r))) : r ∈ rs := by
  simp only [plan, List.mem_append, List.mem_map, List.mem_filter] at h
  grind

/-- The packaged manager makes the same calls and ends with the same flags exactly if it has nothing to stop or
returns at once. -/
theorem stopAllPackaged_agrees_iff (m : LifecycleManager)
    (he : ∀ r ∈ m.resources, ∀ e, r.stopError = some e → e.isException = true) :
    (m.stopAllPackaged.1 = m.stopAll.1 ∧ m.stopAllPackaged.2.2 = m.stopAll.2.2) ↔
      m.resources = [] ∨ m.stopping = true ∨ m.started = false := by
  by_cases hq : m.stopping = true ∨ (!m.started) = true
  · have hr : m.stopping = true ∨ m.started = false := by simpa using hq
    simp only [stopAll, stopAllPackaged, stopAllBy, if_pos hq, hr, or_true, and_self]
  · have hd := performShutdown_ordinary _ fun r hr =>
      he r (mem_of_mem_plan (f := fun r => r.shutdownPhase.getD r.inferPhase) hr)
    have hn : ¬ (m.stopping = true ∨ m.started = false) := by simpa using hq
    simp only [stopAll, stopAllPackaged, stopAllBy, if_neg hq, hd, hn, or_false]
    cases m.resources with
    | nil => simp [plan, performShutdown]
    | cons r rs => simp

/-- Three resources in three phases, one of which raises: the managers agree before they are started. -/
theorem stopAllPackaged_agrees_phases :
    let rs : List ManagedResource := [{ name := "db" },
      { name := "cron", shutdownPhase := some 30, stopError := some (.runtimeError "busy") },
      { name := "consumer", shutdownPhase := some 10 }]
    let m (started : Bool) : LifecycleManager := ⟨rs, started, false⟩
    ((m false).stopAllPackaged.1 = (m false).stopAll.1 ∧ (m false).stopAllPackaged.2.2 = (m false).stopAll.2.2) ∧
    (m true).stopAll.1.length = 4 ∧
    ¬ ((m true).stopAllPackaged.1 = (m true).stopAll.1 ∧ (m true).stopAllPackaged.2.2 = (m true).stopAll.2.2) := by
  intro rs m
  have he : ∀ r ∈ rs, ∀ e, r.stopError = some e → e.isException = true := by simp [rs, PyErr.isException]
  refine ⟨(stopAllPackaged_agrees_iff (m false) he).mpr (.inr (.inr rfl)), by decide +kernel, fun h => ?_⟩
  have hn := (stopAllPackaged_agrees_iff (m true) he).mp h
  simp [m, rs] at hn

theorem stopAllPackaged_stops_nothing :
    let m : LifecycleManager := ⟨[{ name := "cron", shutdownPhase := some 30 }], true, false⟩
    m.stopAllPackaged.1 = [] ∧ m.stopAll.1 = m.resources.map .stop := by decide +kernel

end LifecycleManager

end AsyncScheduler
