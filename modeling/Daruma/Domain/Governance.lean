import Daruma.Domain.Plan

/-! Projects and their settings, lifecycle rules, evidence and artifacts. -/
namespace Daruma

structure Project where
  id : ProjectId
  tenantId : Option String
  slug : String
  title : String
  description : Option String
  triageEnabled : Bool
  createdAt : Timestamp
  updatedAt : Timestamp
  deriving DecidableEq

structure AutoAppendSettings where
  interview : Bool
  humanLog : Bool
  deriving DecidableEq

structure AutoAppendPatch where
  interview : Option Bool
  humanLog : Option Bool

def AutoAppendSettings.apply (self : AutoAppendSettings) (patch : AutoAppendPatch) : AutoAppendSettings :=
  ⟨patch.interview.getD self.interview, patch.humanLog.getD self.humanLog⟩

inductive IntakeSourceMode where
  | off | warn | enforce
  deriving DecidableEq

structure SourceDeriveRule where
  origin : String
  pattern : String
  refTemplate : String

structure SourceChannel where
  scheme : String
  pattern : Option String
  label : Option String
  noteRequired : Bool

structure IntakeSourcePolicy where
  mode : IntakeSourceMode
  defaultRef : Option String
  derive : List SourceDeriveRule
  channels : List SourceChannel

inductive RuleMode where
  | off | recommendation | required
  deriving DecidableEq

def RuleMode.strictness : RuleMode → Nat
  | .off => 0
  | .recommendation => 1
  | .required => 2

inductive RuleScope where
  | tenant
  | project (id : ProjectId)
  | plan (id : PlanId)
  | task (id : TaskId)
  deriving DecidableEq

/-- The wire name of a scope level. -/
def RuleScope.kind : RuleScope → String
  | .tenant => "tenant"
  | .project _ => "project"
  | .plan _ => "plan"
  | .task _ => "task"

def RuleScope.idString : RuleScope → Option String
  | .tenant => none
  | .project id => some (toString id)
  | .plan id => some (toString id)
  | .task id => some (toString id)

inductive RuleTrigger where
  | projectCreated | planCreated | planBeforeApprove | taskCreated | taskBeforeStart
  | taskBeforeComplete | runBeforeExecute | runBeforeComplete | documentCreated | taskHandoff
  deriving DecidableEq

/-- The dotted wire name of a trigger. -/
def RuleTrigger.asStr : RuleTrigger → String
  | .projectCreated => "project.created"
  | .planCreated => "plan.created"
  | .planBeforeApprove => "plan.before_approve"
  | .taskCreated => "task.created"
  | .taskBeforeStart => "task.before_start"
  | .taskBeforeComplete => "task.before_complete"
  | .runBeforeExecute => "run.before_execute"
  | .runBeforeComplete => "run.before_complete"
  | .documentCreated => "document.created"
  | .taskHandoff => "task.handoff"

structure Condition where
  statusFrom : Option (List Status)
  statusTo : Option (List Status)
  titlePrefix : Option (List String)
  deriving DecidableEq

def Condition.isEmpty (self : Condition) : Bool :=
  self.statusFrom.isNone && self.statusTo.isNone && self.titlePrefix.isNone

inductive Requirement where
  | readArtifact (docRef minVersion : String)
  | createArtifact (artifactKind : String)
  | impactCheck (target : String) (requiredFields : List String)
  | decisionRecord (requiredFields : List String)
  | completionNote (requiredFields : List String)
  | ownerRequired
  | acceptanceCriteriaRequired
  | independentTestVerification (executorId : AgentId) (sourceRevision : String)
  | documentLinked
  | riskCheck (target : String) (requiredFields : List String)
  | wipLimit (maxInProgress : Nat)
  deriving DecidableEq

def Requirement.typeStr : Requirement → String
  | .readArtifact .. => "read_artifact"
  | .createArtifact _ => "create_artifact"
  | .impactCheck .. => "impact_check"
  | .decisionRecord _ => "decision_record"
  | .completionNote _ => "completion_note"
  | .ownerRequired => "owner_required"
  | .acceptanceCriteriaRequired => "acceptance_criteria_required"
  | .riskCheck .. => "risk_check"
  | .documentLinked => "document_linked"
  | .independentTestVerification .. => "independent_test_verification"
  | .wipLimit _ => "wip_limit"

/-- Where a requirement cannot be placed. Only `wipLimit` restricts it. -/
def Requirement.placementError (self : Requirement) (scope : RuleScope) (trigger : RuleTrigger) :
    Option String :=
  match self with
  | .wipLimit maxInProgress =>
    if trigger ≠ .taskBeforeStart then some "wip_limit is only valid on trigger task.before_start"
    else match scope with
      | .task _ =>
        some "wip_limit needs a tenant, project or plan scope; a task scope holds one task"
      | _ =>
        if maxInProgress = 0 then some "wip_limit max_in_progress must be at least 1" else none
  | _ => none

structure Rule where
  id : RuleId
  ruleKey : String
  title : String
  scope : RuleScope
  trigger : RuleTrigger
  condition : Option Condition
  requirement : Requirement
  mode : RuleMode
  message : String
  overrideAllowed : Bool
  enabled : Bool
  createdAt : Timestamp
  updatedAt : Timestamp
  deriving DecidableEq

structure NewRule where
  id : Option RuleId
  ruleKey : String
  title : String
  scope : RuleScope
  trigger : RuleTrigger
  condition : Option Condition
  requirement : Requirement
  mode : RuleMode
  message : String
  overrideAllowed : Bool
  enabled : Bool

def NewRule.intoRule (self : NewRule) (id : RuleId) (now : Timestamp) : Rule where
  id := self.id.getD id
  ruleKey := self.ruleKey
  title := self.title
  scope := self.scope
  trigger := self.trigger
  condition := self.condition
  requirement := self.requirement
  mode := self.mode
  message := self.message
  overrideAllowed := self.overrideAllowed
  enabled := self.enabled
  createdAt := now
  updatedAt := now

structure RulePatch where
  title : Option String
  condition : Option (Option Condition)
  requirement : Option Requirement
  mode : Option RuleMode
  message : Option String
  overrideAllowed : Option Bool
  enabled : Option Bool

namespace RulePatch

def isEmpty (self : RulePatch) : Bool :=
  self.title.isNone && self.condition.isNone && self.requirement.isNone && self.mode.isNone &&
    self.message.isNone && self.overrideAllowed.isNone && self.enabled.isNone

def apply (self : RulePatch) (rule : Rule) (now : Timestamp) : Rule :=
  { rule with
    title := self.title.getD rule.title
    condition := self.condition.getD rule.condition
    requirement := self.requirement.getD rule.requirement
    mode := self.mode.getD rule.mode
    message := self.message.getD rule.message
    overrideAllowed := self.overrideAllowed.getD rule.overrideAllowed
    enabled := self.enabled.getD rule.enabled
    updatedAt := now }

end RulePatch

inductive EvidenceKind where
  | documentReadAck | impactAssessment | decisionRecord | completionNote | artifactCreated
  | ownerAssigned | acceptanceCriteriaDefined | riskCheckCompleted
  deriving DecidableEq

/-- How far a piece of evidence counts beyond the scope it was recorded for. -/
inductive EvidenceReach where
  | selfOnly | plan | project | tenant
  deriving DecidableEq

def EvidenceKind.reach : EvidenceKind → EvidenceReach
  | .documentReadAck => .tenant
  | .decisionRecord | .artifactCreated => .project
  | .impactAssessment | .riskCheckCompleted => .plan
  | .ownerAssigned | .acceptanceCriteriaDefined | .completionNote => .selfOnly

structure Evidence where
  id : EvidenceId
  kind : EvidenceKind
  scope : RuleScope
  target : Option String
  docVersion : Option String
  actor : ActorRef
  authenticatedActorId : Option AgentId
  reason : String
  payload : JsonValue
  projectId : Option ProjectId
  planId : Option PlanId
  taskId : Option TaskId
  runId : Option RunId
  artifactId : Option ArtifactId
  ruleId : Option RuleId
  recordedAt : Timestamp
  supersededBy : Option EvidenceId

structure NewEvidence where
  id : Option EvidenceId
  kind : EvidenceKind
  scope : RuleScope
  target : Option String
  docVersion : Option String
  reason : String
  payload : JsonValue
  projectId : Option ProjectId
  planId : Option PlanId
  taskId : Option TaskId
  runId : Option RunId
  artifactId : Option ArtifactId
  ruleId : Option RuleId
  supersedes : Option EvidenceId

def NewEvidence.intoEvidence (self : NewEvidence) (id : EvidenceId) (actor : ActorRef) (now : Timestamp) :
    Evidence where
  id := self.id.getD id
  kind := self.kind
  scope := self.scope
  target := self.target
  docVersion := self.docVersion
  actor := actor
  authenticatedActorId := none
  reason := self.reason
  payload := self.payload
  projectId := self.projectId
  planId := self.planId
  taskId := self.taskId
  runId := self.runId
  artifactId := self.artifactId
  ruleId := self.ruleId
  recordedAt := now
  supersededBy := none

inductive ArtifactStatus where
  | pending | active | committed | deprecated
  deriving DecidableEq

inductive RoleArtifactStatus where
  | proposed | superseded | applied | rejected
  deriving DecidableEq

def RoleArtifactStatus.asStr : RoleArtifactStatus → String
  | .proposed => "proposed"
  | .superseded => "superseded"
  | .applied => "applied"
  | .rejected => "rejected"

def RoleArtifactStatus.canTransitionTo (self toStatus : RoleArtifactStatus) : Bool :=
  self = .proposed && toStatus ≠ .proposed

structure RoleArtifact where
  role : String
  kind : String
  generation : Int
  status : RoleArtifactStatus
  payload : JsonValue

def RoleArtifact.uri (taskId : TaskId) (role kind : String) (generation : Int) : String :=
  s!"artifact://task/{taskId}/role/{role}/{kind}/{generation}"

structure Artifact where
  id : ArtifactId
  uri : String
  title : String
  description : String
  status : ArtifactStatus
  ownerAgentId : Option AgentId
  taskId : Option TaskId
  projectId : Option ProjectId
  version : Option String
  lastWriteToken : Option Int
  roleArtifact : Option RoleArtifact
  createdAt : Timestamp
  updatedAt : Timestamp

inductive ArtifactRelationKind where
  | dependsOn | implements | tests | documents | supersedes | conflictsWith
  deriving DecidableEq

def ArtifactRelationKind.asStr : ArtifactRelationKind → String
  | .dependsOn => "depends_on"
  | .implements => "implements"
  | .tests => "tests"
  | .documents => "documents"
  | .supersedes => "supersedes"
  | .conflictsWith => "conflicts_with"

structure ArtifactRelation where
  id : ArtifactRelationId
  fromId : ArtifactId
  toId : ArtifactId
  kind : ArtifactRelationKind
  createdAt : Timestamp
  deriving DecidableEq

structure NewArtifact where
  id : Option ArtifactId
  uri : String
  title : String
  description : Option String
  taskId : Option TaskId
  projectId : Option ProjectId

def NewArtifact.intoArtifact (self : NewArtifact) (id : ArtifactId) (now : Timestamp) : Artifact where
  id := self.id.getD id
  uri := self.uri
  title := self.title
  description := self.description.getD ""
  status := .pending
  ownerAgentId := none
  taskId := self.taskId
  projectId := self.projectId
  version := none
  lastWriteToken := none
  roleArtifact := none
  createdAt := now
  updatedAt := now

end Daruma
