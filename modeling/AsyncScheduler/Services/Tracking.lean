import AsyncScheduler.Common.Transaction

/-!
# Run tracking and timeline

The services that record runs and events of a task, one session for each record.
-/

namespace AsyncScheduler

namespace RunTrackingService

def createTaskRun (u : Uuid) (taskId : String) (attempt : Int) (status : String) : Py String := do
  let runKey := "taskrun-" ++ slice taskId 8 ++ "-" ++ u.hex8
  session (commit [.insertTaskRun ⟨taskId, runKey, attempt, status⟩])
  pure runKey

def createDagRun (u : Uuid) (dagId tenantId status : String) : Py String := do
  let runKey := "dagrun-" ++ slice dagId 8 ++ "-" ++ u.hex8
  session (commit [.insertDagRun ⟨dagId, runKey, tenantId, status⟩])
  pure runKey

end RunTrackingService

namespace TaskTimelineService

def emit (taskId : String) (runKey : Option String) (eventType : String)
    (payload : List (String × String)) : Py Unit :=
  session (commit [.insertTaskEvent ⟨taskId, runKey, eventType, payload⟩])

end TaskTimelineService

section Footprint
variable {I : World → Prop} {C : Command → Prop} {α : Type} {Q : α → Prop}

theorem issues_commit {ws : List DbWrite} (hc : C (.commit ws)) :
    Issues I C (fun _ => True) (commit ws) := issues_await hc fun _ _ _ _ => trivial

theorem issues_recorded {ws : List DbWrite} {a : α} (hr : C .read) (hc : C (.commit ws))
    (ha : Q a) : Issues I C Q ((session (commit ws)).bind fun _ => .ret a) :=
  (issues_session hr (issues_commit hc)).bind fun _ _ => ha

end Footprint

end AsyncScheduler
