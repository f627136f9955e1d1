import AsyncScheduler.Common.Lifecycle

/-!
# Startup

The cron scheduler waits for its own loop in `start`.
-/

namespace AsyncScheduler
open List

namespace LifecycleManager

/-- `start_all` from a fresh process, as far as it gets while no loop ends. -/
def startup (resources : List Service) : Lifecycle Unit × Runtime :=
  (startAll resources).untilBlocked LifecycleCommand.ready LifecycleCommand.apply .fresh

/-- It has returned, and every resource was started once and runs its loop. -/
structure Completed (resources : List Service) (result : Lifecycle Unit × Runtime) : Prop where
  returned : result.1 = .ret ()
  calls : result.2.calls = resources
  started : result.2.managerStarted = true
  running : ∀ s ∈ resources, result.2.loop s = some .running

/-- It waits for the loop of the cron scheduler. -/
structure Waiting (result : Lifecycle Unit × Runtime) : Prop where
  blocked : ∃ n, result.1 = .act (.awaitLoop .cronScheduler) n
  running : result.2.loop .cronScheduler = some .running

def launched (w : Runtime) (s : Service) : Runtime :=
  { w with
    running := Function.update w.running s true
    loop := Function.update w.loop s (some .running)
    calls := w.calls ++ [s] }

theorem untilBlocked_startResource {s : Service} {w : Runtime} (hs : s ≠ .cronScheduler) (hi : w.running s = false) :
    (startResource s).untilBlocked LifecycleCommand.ready LifecycleCommand.apply w = (.ret (), launched w s) := by
  cases s with
  | cronScheduler => exact absurd rfl hs
  | taskReconciler =>
    simp [startResource, Service.start, Service.startLoop, Lifecycle.get, Lifecycle.perform, hi, exceptException,
      suppressErrors, Prog.void, Prog.handle, Prog.bind, Prog.untilBlocked, LifecycleCommand.ready, LifecycleCommand.apply,
      launched]
  | compensationService | callbackDispatcher =>
    simp [startResource, Service.start, Service.startLoop, Lifecycle.get, Lifecycle.perform, hi, exceptException,
      Prog.handle, Prog.bind, Prog.untilBlocked, LifecycleCommand.ready, LifecycleCommand.apply, launched]

/-- The rest of `startResource` when it waits for the loop. -/
def waitCron : Lifecycle Unit := exceptException (Lifecycle.awaitLoop .cronScheduler) fun _ => pure ()

theorem untilBlocked_startCron (w : Runtime) :
    (startResource .cronScheduler).untilBlocked LifecycleCommand.ready LifecycleCommand.apply w =
      (waitCron, launched w .cronScheduler) := by
  simp [startResource, Service.start, Lifecycle.perform, Lifecycle.awaitLoop, exceptException, waitCron, Prog.handle,
    Prog.bind, Prog.untilBlocked, LifecycleCommand.ready, LifecycleCommand.apply, launched]

section
variable {resources : List Service} {w : Runtime}

theorem calls_foldl_launched (resources : List Service) (w : Runtime) :
    (resources.foldl launched w).calls = w.calls ++ resources := by
  induction resources generalizing w with
  | nil => simp
  | cons s resources ih =>
    rw [foldl_cons, ih, launched, append_assoc]
    rfl

theorem loop_launched_of_running {s s' : Service} (h : w.loop s = some .running) : (launched w s').loop s = some .running := by
  by_cases hs : s = s'
  · subst hs
    simp [launched]
  · simpa [launched, hs] using h

theorem loop_foldl_launched {s : Service} (h : w.loop s = some .running ∨ s ∈ resources) :
    (resources.foldl launched w).loop s = some .running := by
  induction resources generalizing w with
  | nil => simpa using h
  | cons s' resources ih =>
    refine ih ?_
    rcases h with h | h
    · exact .inl (loop_launched_of_running h)
    · rcases mem_cons.mp h with rfl | h
      · left
        simp [launched]
      · exact .inr h

theorem running_launched_of_ne {s s' : Service} (h : s ≠ s') : (launched w s').running s = w.running s := by
  simp [launched, h]

theorem running_foldl_launched {s : Service} (h : s ∉ resources) : (resources.foldl launched w).running s = w.running s := by
  induction resources generalizing w with
  | nil => rfl
  | cons s' resources ih =>
    rw [mem_cons, not_or] at h
    rw [foldl_cons, ih h.2, running_launched_of_ne h.1]

theorem untilBlocked_forEach (hc : .cronScheduler ∉ resources) (hn : resources.Nodup)
    (hi : ∀ s ∈ resources, w.running s = false) (rest : Unit → Lifecycle Unit) :
    ((Prog.forEach startResource resources).bind rest).untilBlocked LifecycleCommand.ready LifecycleCommand.apply w =
      (rest ()).untilBlocked LifecycleCommand.ready LifecycleCommand.apply (resources.foldl launched w) := by
  induction resources generalizing w with
  | nil => rfl
  | cons s resources ih =>
    rw [mem_cons, not_or] at hc
    rw [nodup_cons] at hn
    rw [Prog.forEach, Prog.bind_assoc,
      Prog.untilBlocked_bind (untilBlocked_startResource (Ne.symm hc.1) (hi s mem_cons_self))]
    refine ih hc.2 hn.2 fun s' hs' => ?_
    have hne : s' ≠ s := fun h => hn.1 (h ▸ hs')
    rw [running_launched_of_ne hne]
    exact hi s' (mem_cons_of_mem _ hs')

end

theorem startup_eq (resources : List Service) :
    startup resources = ((Prog.forEach startResource resources).bind fun _ => Lifecycle.perform .setStarted).untilBlocked
      LifecycleCommand.ready LifecycleCommand.apply .fresh := rfl

theorem completed_of_no_cron {resources : List Service} (hc : .cronScheduler ∉ resources) (hn : resources.Nodup) :
    Completed resources (startup resources) := by
  have hr : startup resources = (.ret (), { resources.foldl launched .fresh with managerStarted := true }) := by
    rw [startup_eq, untilBlocked_forEach hc hn fun _ _ => rfl]
    rfl
  rw [hr]
  exact ⟨rfl, calls_foldl_launched resources .fresh, rfl, fun s hs => loop_foldl_launched (.inr hs)⟩

theorem startup_with_cron {before after : List Service} (hn : (before ++ .cronScheduler :: after).Nodup) :
    startup (before ++ .cronScheduler :: after) =
      (waitCron.bind fun _ => (Prog.forEach startResource after).bind fun _ => Lifecycle.perform .setStarted,
        (before ++ [Service.cronScheduler]).foldl launched .fresh) := by
  obtain ⟨hb, -, ha⟩ := nodup_append.mp hn
  have hc : Service.cronScheduler ∉ before := fun h => ha _ h _ mem_cons_self rfl
  rw [startup_eq, Prog.forEach_append_bind, untilBlocked_forEach hc hb fun _ _ => rfl, Prog.forEach, Prog.bind_assoc]
  rw [Prog.untilBlocked_bind_blocked (untilBlocked_startCron _), foldl_append]
  rfl

/-- Startup completes once the cron loop has ended, unless with an interrupt. -/
theorem completed_after_wait {after : List Service} {w : Runtime} {outcome : Except PyErr Unit}
    (hd : w.loop .cronScheduler = some (.done outcome)) (ho : ∀ e, outcome = .error e → e.isException = true)
    (hc : .cronScheduler ∉ after) (hn : after.Nodup) (hi : ∀ s ∈ after, w.running s = false) :
    (waitCron.bind fun _ => (Prog.forEach startResource after).bind fun _ => Lifecycle.perform .setStarted).untilBlocked
      LifecycleCommand.ready LifecycleCommand.apply w =
        (.ret (), { after.foldl launched w with managerStarted := true }) := by
  have hw : waitCron.untilBlocked LifecycleCommand.ready LifecycleCommand.apply w = (.ret (), w) := by
    cases outcome with
    | ok _ => simp [waitCron, Lifecycle.awaitLoop, exceptException, Prog.handle, Prog.untilBlocked, LifecycleCommand.ready, hd,
        LifecycleCommand.apply]
    | error e => simp [waitCron, Lifecycle.awaitLoop, exceptException, Prog.handle, Prog.untilBlocked, LifecycleCommand.ready, hd,
        LifecycleCommand.apply, ho e rfl]
  rw [Prog.untilBlocked_bind hw, untilBlocked_forEach hc hn hi]
  rfl

end LifecycleManager

open LifecycleManager in
/-- Startup completes exactly without the cron scheduler. With it, startup waits until the cron loop ends, and the services
registered after it are started only then. -/
theorem startup_completes_iff (container : ServiceContainer) (settings : BackgroundSettings) :
    let resources := registerControlPlaneResources container settings
    (Completed resources (startup resources) ↔ .cronScheduler ∉ resources) ∧
    ∀ before after, resources = before ++ .cronScheduler :: after →
      Waiting (startup resources) ∧ (startup resources).2.calls = before ++ [.cronScheduler] ∧
      ∀ outcome : Except PyErr Unit, (∀ e, outcome = .error e → e.isException = true) →
        let w := { (startup resources).2 with
          loop := Function.update (startup resources).2.loop .cronScheduler (some (.done outcome)) }
        let resumed := (startup resources).1.untilBlocked LifecycleCommand.ready LifecycleCommand.apply w
        resumed.1 = .ret () ∧ resumed.2.calls = resources := by
  intro resources
  have hn : resources.Nodup := nodup_registered container settings
  have hw {before after : List Service} (hsp : resources = before ++ .cronScheduler :: after) :
      Waiting (startup resources) := by
    rw [hsp, startup_with_cron (hsp ▸ hn)]
    exact ⟨⟨_, rfl⟩, loop_foldl_launched (.inr (by simp))⟩
  refine ⟨⟨fun hco hm => ?_, fun hcr => completed_of_no_cron hcr hn⟩, fun before after hsp => ?_⟩
  · obtain ⟨before, after, hsp⟩ := List.append_of_mem hm
    obtain ⟨n, hb⟩ := (hw hsp).blocked
    cases hb.symm.trans hco.returned
  · have hr := startup_with_cron (hsp ▸ hn)
    rw [← hsp] at hr
    have hc : (startup resources).2.calls = before ++ [.cronScheduler] := by
      rw [hr]
      exact calls_foldl_launched (before ++ [.cronScheduler]) .fresh
    refine ⟨hw hsp, hc, fun outcome ho => ?_⟩
    obtain ⟨-, ha, hap⟩ := List.nodup_append.mp (hsp ▸ hn)
    rw [List.nodup_cons] at ha
    have hi : ∀ s ∈ after, ((before ++ [Service.cronScheduler]).foldl launched Runtime.fresh).running s = false := by
      intro s hs
      refine (running_foldl_launched fun h => ?_).trans rfl
      rcases List.mem_append.mp h with h | h
      · exact hap s h s (List.mem_cons_of_mem _ hs) rfl
      · exact ha.1 (List.mem_singleton.mp h ▸ hs)
    intro w
    have hd : w.loop .cronScheduler = some (.done outcome) := by simp [w]
    have hi' : ∀ s ∈ after, w.running s = false := by
      intro s hs
      change (startup resources).2.running s = false
      rw [hr]
      exact hi s hs
    have hwc : w.calls = before ++ [.cronScheduler] := hc
    have hp : (startup resources).1 =
        waitCron.bind fun _ => (Prog.forEach startResource after).bind fun _ => Lifecycle.perform .setStarted := by rw [hr]
    intro resumed
    have hre : resumed = (.ret (), { after.foldl launched w with managerStarted := true }) := by
      change (startup resources).1.untilBlocked _ _ w = _
      rw [hp]
      exact completed_after_wait hd ho ha.1 ha.2 hi'
    rw [hre]
    refine ⟨rfl, ?_⟩
    change (after.foldl launched w).calls = _
    rw [calls_foldl_launched, hwc, hsp, List.append_assoc]
    rfl

/-- With all four services, startup hangs in the second one: the compensation service and the callback dispatcher are
never started. -/
theorem startup_hangs_in_cron :
    let resources := registerControlPlaneResources ⟨true, true, true, true⟩ ⟨true, true⟩
    resources = [.taskReconciler, .cronScheduler, .compensationService, .callbackDispatcher] ∧
      ¬ LifecycleManager.Completed resources (LifecycleManager.startup resources) ∧
      LifecycleManager.Waiting (LifecycleManager.startup resources) ∧
      (LifecycleManager.startup resources).2.calls = [.taskReconciler, .cronScheduler] ∧
      (LifecycleManager.startup resources).2.managerStarted = false := by
  have hc : (LifecycleManager.startup
      [.taskReconciler, .cronScheduler, .compensationService, .callbackDispatcher]).2.calls = [.taskReconciler, .cronScheduler] := rfl
  refine ⟨rfl, fun h => ?_, ⟨⟨_, rfl⟩, rfl⟩, hc, rfl⟩
  cases hc.symm.trans h.calls

end AsyncScheduler
