import Daruma.Api.Command
import Daruma.Storage.Database

/-! The checks that a batch of events asks for before it is persisted. -/
namespace Daruma

/-- A warning that rides the answer of a command. `rule` is what its details say
of the rule behind it. -/
structure MutationWarning where
  code : String
  message : String
  rule : Option (RuleId × String)

/-- One point of a batch at which a gate decides. The staged plans, memberships
and statuses are those of the whole batch. -/
structure GateCheck where
  trigger : RuleTrigger
  projectId : Option ProjectId
  taskId : Option TaskId
  planId : Option PlanId
  runId : Option RunId
  documentId : Option DocumentId
  handoffId : Option HandoffId
  statusFrom : Option Status
  statusTo : Option Status
  planStatusFrom : Option PlanStatus
  planStatusTo : Option PlanStatus
  taskTitle : Option String
  pendingPlanIds : List PlanId
  pendingPlans : List (PlanId × Option PlanId)
  pendingStatuses : List (TaskId × Status)
  deriving DecidableEq

def GateCheck.new (trigger : RuleTrigger) : GateCheck :=
  ⟨trigger, none, none, none, none, none, none, none, none, none, none, none, [], [], []⟩

/-- A command's request to pass a blocking rule. -/
structure GateOverride where
  force : Bool
  overrideReason : Option String
  deriving DecidableEq

def gateOverrideOf : Command → GateOverride
  | .task (.setStatus _ _ force overrideReason _) => ⟨force, overrideReason⟩
  | .plan (.setPlanStatus _ _ force overrideReason) => ⟨force, overrideReason⟩
  | _ => ⟨false, none⟩

/-- What would unblock one blocking rule. -/
structure UnblockHint where
  ruleKey : String
  requirementType : String
  reach : Option EvidenceReach
  evidenceKind : Option EvidenceKind
  evidenceTarget : Option String
  evidenceScope : Option RuleScope
  maxInProgress : Option Nat
  inProgressTaskIds : List TaskId
  note : Option String
  reason : Option String

/-- The outcomes of a refusal are the rules that block, and the advisory ones that
would only have warned. -/
inductive GateDecision where
  | allowed
  | warning (warnings : List MutationWarning)
  | overridden (overridden warnings : List MutationWarning) (reason : String)
  | blocked (message : String) (outcomes warnings : List MutationWarning) (unblock : List UnblockHint)

/-- One advisory rule that a check came across. -/
structure RuleObservation where
  ruleId : RuleId
  ruleKey : String
  ruleRevision : Timestamp
  triggered : Bool

abbrev LifecycleGate := Database → Env → Actor → GateCheck → GateOverride →
  Result (GateDecision × List RuleObservation)

namespace LifecycleGate

def stagedPlans (events : List Event) : List (PlanId × Option PlanId) :=
  events.filterMap fun
    | .plan (.planCreated plan) => some (plan.id, plan.parentPlanId)
    | _ => none

def stagedMemberships (events : List Event) : List (TaskId × PlanId) :=
  events.filterMap fun
    | .plan (.planTaskAdded planId taskId _ _) => some (taskId, planId)
    | _ => none

/-- The last transition of a task is the status that the batch gives it. -/
def stageStatus (statuses : List (TaskId × Status)) : Event → List (TaskId × Status)
  | .task (.taskStatusChanged taskId _ toStatus) =>
    statuses.filter (fun entry => entry.1 ≠ taskId) ++ [(taskId, toStatus)]
  | _ => statuses

def stagedStatuses (events : List Event) : List (TaskId × Status) :=
  events.foldl stageStatus []

def deriveCheck : Event → Option GateCheck
  | .project (.projectCreated project) =>
    some { GateCheck.new .projectCreated with projectId := some project.id }
  | .plan (.planCreated plan) =>
    some { GateCheck.new .planCreated with planId := some plan.id, projectId := some plan.projectId }
  | .plan (.planStatusChanged planId fromStatus toStatus) =>
    if fromStatus = .draft ∧ toStatus = .active then
      some { GateCheck.new .planBeforeApprove with
        planId := some planId, planStatusFrom := some fromStatus, planStatusTo := some toStatus }
    else none
  | .task (.taskCreated task) =>
    some { GateCheck.new .taskCreated with
      taskId := task.id, projectId := task.projectId, taskTitle := some task.title }
  | .task (.taskStatusChanged taskId fromStatus toStatus) =>
    if toStatus = .inProgress ∨ toStatus = .done then
      some { GateCheck.new (if toStatus = .inProgress then .taskBeforeStart else .taskBeforeComplete) with
        taskId := some taskId, statusFrom := some fromStatus, statusTo := some toStatus }
    else none
  | .run (.runStarted run) =>
    some { GateCheck.new .runBeforeExecute with runId := some run.id, planId := some run.planId }
  | .run (.runCompleted runId _) => some { GateCheck.new .runBeforeComplete with runId := some runId }
  | .document (.documentCreated document) =>
    some { GateCheck.new .documentCreated with
      documentId := some document.id, projectId := some document.projectId }
  | .handoff (.handoffAccepted handoffId ..) =>
    some { GateCheck.new .taskHandoff with handoffId := some handoffId }
  | _ => none

def stageCheck (events : List Event) (check : GateCheck) : GateCheck :=
  { check with
    pendingPlanIds := match check.taskId with
      | some taskId => (stagedMemberships events).filterMap fun entry =>
        if entry.1 = taskId then some entry.2 else none
      | none => check.pendingPlanIds
    pendingPlans := stagedPlans events
    pendingStatuses := stagedStatuses events }

def deriveGateChecks (events : List Event) : List GateCheck :=
  (events.filterMap deriveCheck).map (stageCheck events)

theorem mem_deriveGateChecks {events : List Event} {check : GateCheck} : check ∈ deriveGateChecks events ↔
      ∃ event ∈ events, ∃ derived, deriveCheck event = some derived ∧ stageCheck events derived = check := by
  simp only [deriveGateChecks, List.mem_map, List.mem_filterMap]
  constructor
  · rintro ⟨derived, ⟨event, hMem, hDerived⟩, rfl⟩
    exact ⟨event, hMem, derived, hDerived, rfl⟩
  · rintro ⟨event, hMem, derived, hDerived, rfl⟩
    exact ⟨derived, ⟨event, hMem, hDerived⟩, rfl⟩

end LifecycleGate
end Daruma
