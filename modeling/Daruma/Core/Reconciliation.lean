import Daruma.Core.GovernanceCommands
import Daruma.Core.PlanCommands
import Daruma.Core.RecordCommands
import Daruma.Core.RunCommands

/-! From a command to the events that record it. The commands on relations and those that move
a task write relations while their events are built; all others only read. Then plans close
with the work in them, over the statuses that the events are about to give. -/
namespace Daruma

open Stateful (lift)

def recorded {Kind : Type} (group : Kind → Event) (events : Result (List Kind)) : Building (List Event) :=
  lift (List.map group <$> events)

namespace TaskCommands

def buildEvents (config : Config) (db : Database) (env : Env) (actor : Actor) :
    TaskCommand → Building (List Event)
  | .createTask task => lift (createTask config db env actor task)
  | .updateTask id patch => lift (updateTask config db id patch)
  | .completeTask id note => completeTask db env actor id note
  | .deleteTask id => deleteTask db env id
  | .setStatus id status _ _ comment => setStatus db env actor id status comment
  | .setPriority id priority => lift (setPriority db id priority)
  | .advancePipeline id position => advancePipeline db env actor id position
  | .closePipelineStage id stageIndex instanceName next =>
    closePipelineStage db env actor id stageIndex instanceName next
  | .bulkSetStatus ids status => bulkSetStatus db env actor ids status
  | .splitTask parent subtasks => lift (splitTask config db env parent subtasks)

end TaskCommands

namespace PlanCommands

/-- The events of a source are built ahead of those of its plan. -/
def buildEvents (config : Config) (db : Database) (env : Env) (actor : Actor) :
    PlanCommand → Result (List Event)
  | .createPlan plan externalRef => List.map .plan <$> createPlan config db env plan externalRef
  | .materializePlan plan tasks none => materializePlan config db env actor plan tasks
  | .materializePlan plan tasks (some planId) => appendMaterializedTasks db env actor planId plan tasks
  | .extendSource .. => .ok []
  | .updatePlan id patch => List.map .plan <$> updatePlan db id patch
  | .amendPlanTask planId taskId patch => amendPlanTask db planId taskId patch
  | .archivePlan id => archivePlan db env.now id
  | .deletePlan id => deletePlan db env.now id
  | .addPlanTask planId taskId position dependsOn =>
    List.map .plan <$> addPlanTask db planId taskId position dependsOn
  | .bulkAttachToPlan planId taskIds => List.map .plan <$> bulkAttachToPlan db planId taskIds
  | .removePlanTask planId taskId => removePlanTask db env actor planId taskId
  | .reorderPlan planId order => List.map .plan <$> reorderPlan db planId order
  | .setPlanGoal planId goal => List.map .plan <$> setPlanGoal db planId goal
  | .setPlanStatus planId status _ _ => List.map .plan <$> setPlanStatus db planId status

end PlanCommands

def ClaimCommand.event : ClaimCommand → ClaimEvent
  | .acquireClaim agentId taskId claimId expiresAt => .agentClaimed agentId taskId (some claimId) expiresAt
  | .releaseClaim agentId taskId => .agentReleased agentId taskId none

def LeaseCommand.event : LeaseCommand → LeaseEvent
  | .reserveFiles leases => .filesReserved leases
  | .releaseFiles agentId taskId leaseIds => .filesReleased agentId taskId leaseIds

def buildEvents (config : Config) (db : Database) (env : Env) (actor : Actor) : Command → Building (List Event)
  | .task command => TaskCommands.buildEvents config db env actor command
  | .relation command => RelationCommands.buildEvents db env actor command
  | .comment command => recorded .comment (CommentCommands.buildEvents db env actor command)
  | .project command => recorded .project (ProjectCommands.buildEvents config db env command)
  | .plan command => lift (PlanCommands.buildEvents config db env actor command)
  | .run command => recorded .run (RunCommands.buildEvents config db env actor command)
  | .session command => recorded .session (SessionCommands.buildEvents db env command)
  | .claim command => lift (.ok [.claim command.event])
  | .lease command => lift (.ok [.lease command.event])
  | .workUnit command => recorded .workUnit (WorkUnitCommands.buildEvents db env command)
  | .handoff command => recorded .handoff (HandoffCommands.buildEvents db env actor command)
  | .document command => recorded .document (DocumentCommands.buildEvents db env command)
  | .rule command => recorded .rule (RuleCommands.buildEvents db env command)
  | .evidence evidence => recorded .evidence (EvidenceCommands.recordEvidence db env actor evidence)
  | .artifact command => recorded .artifact (ArtifactCommands.buildEvents db env command)

def planReadyToClose (memberStatuses : List (Option Status)) (childStatuses : List PlanStatus) : Bool :=
  !memberStatuses.isEmpty && memberStatuses.all (fun status => status.any Status.isTerminal) &&
    childStatuses.all fun status => status = .completed || status = .abandoned

namespace Reconciliation

/-- What a batch changes, over the stored rows: the last status of each task and
plan first. -/
structure Pending where
  candidates : List PlanId
  taskStatuses : List (TaskId × Status)
  planStatuses : List (PlanId × PlanStatus)
  endedRuns : List RunId

def parentOf (db : Database) (id : PlanId) : List PlanId :=
  ((db.plans.find? id).bind Plan.parentPlanId).toList

def endRun (db : Database) (pending : Pending) (runId : RunId) : Pending :=
  { pending with
    endedRuns := runId :: pending.endedRuns
    candidates := pending.candidates ++ ((db.runs.find? runId).map Run.planId).toList }

def note (db : Database) (pending : Pending) : Event → Pending
  | .task (.taskStatusChanged taskId _ toStatus) =>
    { pending with
      taskStatuses := (taskId, toStatus) :: pending.taskStatuses
      candidates := pending.candidates ++
        if toStatus.isTerminal then (PlanRepo.listPlansForTask db taskId).map Plan.id else [] }
  | .plan (.planStatusChanged planId _ toStatus) =>
    { pending with
      planStatuses := (planId, toStatus) :: pending.planStatuses
      candidates := pending.candidates ++
        if toStatus = .completed ∨ toStatus = .abandoned then parentOf db planId else [] }
  | .plan (.planArchived planId _) =>
    { pending with
      planStatuses := (planId, .abandoned) :: pending.planStatuses
      candidates := pending.candidates ++ parentOf db planId }
  | .run (.runCompleted runId _) | .run (.runFailed runId _ _) | .run (.runAborted runId _ _) =>
    endRun db pending runId
  | _ => pending

def planStatus (pending : Pending) (plan : Plan) : PlanStatus :=
  (pending.planStatuses.lookup plan.id).getD plan.status

def memberStatus (db : Database) (pending : Pending) (member : PlanTask) : Option Status :=
  (db.tasks.find? member.taskId).map fun task => (pending.taskStatuses.lookup task.id).getD task.status

/-- Whether the events leave a plan open without work in it. -/
def closes (db : Database) (pending : Pending) (plan : Plan) : Bool :=
  planStatus pending plan = .active && plan.archivedAt.isNone &&
    planReadyToClose ((PlanRepo.listTasksOrdered db plan.id).map (memberStatus db pending))
      ((PlanRepo.listChildren db plan.id).map (planStatus pending)) &&
    (RunRepo.listActiveForPlan db plan.id).all fun run => run.id ∈ pending.endedRuns

/-- Work through the candidates. A plan that closes makes its parent one. -/
def drain (db : Database) : Nat → Pending → List PlanEvent
  | 0, _ => []
  | steps + 1, pending =>
    match pending.candidates with
    | [] => []
    | planId :: rest =>
      match db.plans.find? planId with
      | none => drain db steps { pending with candidates := rest }
      | some plan =>
        if closes db pending plan then
          .planStatusChanged planId plan.status .completed :: drain db steps { pending with
            planStatuses := (planId, .completed) :: pending.planStatuses
            candidates := rest ++ plan.parentPlanId.toList }
        else drain db steps { pending with candidates := rest }

/-- The closures that a batch brings about. Every step takes a candidate, and
only a plan that closes, which it does once, adds one. -/
def planReconciliations (db : Database) (events : List Event) : List PlanEvent :=
  let pending := events.foldl (note db) ⟨[], [], [], []⟩
  drain db (pending.candidates.length + db.plans.rows.length) pending

end Reconciliation
end Daruma
