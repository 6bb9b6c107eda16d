import Daruma.Domain.Governance
import Daruma.Domain.Work

/-! The events of the append-only log. The source's one enumeration is grouped
here by the aggregate an event is about, following the sections of that
enumeration: a projection can then say in one case that it ignores a group. -/
namespace Daruma

inductive TaskEvent where
  | taskCreated (task : NewTask)
  | taskUpdated (taskId : TaskId) (patch : TaskPatch)
  | taskStatusChanged (taskId : TaskId) (fromStatus toStatus : Status)
  | taskPriorityChanged (taskId : TaskId) (fromPriority toPriority : Priority)
  | taskCompleted (taskId : TaskId) (completedAt : Timestamp) (completionNote : Option CompletionNote)
  | taskDeleted (taskId : TaskId)
  | taskSplitGenerated (parent : TaskId) (subtasks : List NewTask)
  | taskReopened (taskId : TaskId) (actor : Actor) (instant : Timestamp)
  | taskClosed (taskId : TaskId) (actor : Actor) (instant : Timestamp)
  | taskUnblocked (taskId unblockedBy : TaskId) (occurredAt : Timestamp)
  | taskDueElapsed (taskId : TaskId) (dueAt instant : Timestamp)
  | taskContested (taskId : TaskId) (actors : List Actor) (field : Option String)

inductive RelationEvent where
  | taskLinked (relationId : RelationId) (source target : TaskId) (kind : RelationKind) (actor : Actor)
      (occurredAt : Timestamp)
  | taskUnlinked (relationId : RelationId) (source target : TaskId) (kind : RelationKind)
      (occurredAt : Timestamp)
  | taskRelationKindChanged (relationId : RelationId) (source target : TaskId)
      (fromKind toKind : RelationKind) (occurredAt : Timestamp)

inductive CommentEvent where
  | commentAdded (comment : Comment)
  | commentEdited (commentId : CommentId) (taskId : TaskId) (patch : CommentPatch) (editedAt : Timestamp)
  | commentDeleted (commentId : CommentId) (taskId : TaskId) (deletedAt : Timestamp)
  | taskCommented (taskId : TaskId) (commentId : CommentId) (author : Actor) (preview : String)

inductive ProjectEvent where
  | projectCreated (project : Project)
  | projectUpdated (projectId : ProjectId) (title : Option String) (description : Option (Option String))
  | projectDeleted (projectId : ProjectId)
  | projectSettingsChanged (projectId : ProjectId) (autoAppend : AutoAppendSettings) (instant : Timestamp)
      (intakeSource : Option (Option IntakeSourcePolicy)) (audit : Option (Option JsonValue))

inductive PlanEvent where
  | planCreated (plan : Plan)
  | planUpdated (planId : PlanId) (patch : PlanPatch)
  | planStatusChanged (planId : PlanId) (fromStatus toStatus : PlanStatus)
  | planGoalChanged (planId : PlanId) (fromGoal toGoal : String)
  | planTaskAdded (planId : PlanId) (taskId : TaskId) (position : Nat) (dependsOn : List TaskId)
  | planTaskRemoved (planId : PlanId) (taskId : TaskId)
  | planTaskAmended (planId : PlanId) (taskId : TaskId) (patch : TaskPatch)
  | planReordered (planId : PlanId) (order : List TaskId)
  | planArchived (planId : PlanId) (instant : Timestamp)
  | planDeleted (planId : PlanId) (instant : Timestamp)
  | sourceUpserted (source : SourceNode)
  | planSourceSet (planId : PlanId) (sourceRef : String) (instant : Timestamp)
  | planModifiedByHuman (planId : PlanId) (duringRunId : Option RunId)

/-- Why a plan edit made a run obsolete. -/
inductive ObsolescenceKind where
  | archived | taskRemoved | goalChanged
  deriving DecidableEq

inductive RunEvent where
  | runStarted (run : Run)
  | runStepStarted (runId : RunId) (taskId : TaskId) (instant : Timestamp)
  | runStepFinished (runId : RunId) (taskId : TaskId) (outcome : RunOutcome) (instant : Timestamp)
  | runCompleted (runId : RunId) (instant : Timestamp)
  | runFailed (runId : RunId) (reason : String) (instant : Timestamp)
  | runAborted (runId : RunId) (reason : String) (instant : Timestamp)
  | runUnresponsive (runId : RunId) (instant : Timestamp)
  | runStale (runId : RunId) (instant : Timestamp)
  | runNoteAppended (runId : RunId) (noteId : RunNoteId) (body : String) (actor : Actor)
      (instant : Timestamp)
  | runObsolescedByPlanEdit (runId : RunId) (planId : PlanId) (kind : ObsolescenceKind)
  | runStopRequested (runId : RunId) (reason : Option String) (actor : Actor)
  | runElicitationRequested (runId : RunId) (prompt : String) (choices : List String)
  | runAuthRequired (runId : RunId) (scope : String)
  | runInterventionAccepted (runId : RunId) (choice : String) (actor : Actor)

inductive SessionEvent where
  | agentSessionStarted (session : AgentSession)
  | agentSessionEnded (sessionId : AgentSessionId) (instant : Timestamp)
  | agentSessionPlanUpdated (sessionId : AgentSessionId) (steps : List AgentSessionPlanStep)
  | sessionArtifactAttached (artifact : SessionArtifact)
  | agentActionRecorded (action : AgentAction)

inductive ClaimEvent where
  | agentClaimed (agentId : AgentId) (taskId : TaskId) (claimId : Option ClaimId) (expiresAt : Timestamp)
  | agentReleased (agentId : AgentId) (taskId : TaskId) (claimId : Option ClaimId)

inductive LeaseEvent where
  | filesReserved (leases : List WorkLease)
  | filesReleased (agentId : AgentId) (taskId : TaskId) (leaseIds : Option (List WorkLeaseId))

inductive WorkUnitEvent where
  | workUnitCreated (workUnit : WorkUnit)
  | workUnitClaimed (workUnitId : WorkUnitId) (agentId : AgentId) (expiresAt : Timestamp)
  | workUnitStarted (workUnitId : WorkUnitId) (instant : Timestamp)
  | workUnitBlocked (workUnitId : WorkUnitId) (reason : String) (instant : Timestamp)
  | workUnitCompleted (workUnitId : WorkUnitId) (outcome : String) (producedArtifacts : List String)
      (nextSuggestedUnits : List WorkUnitId) (completedBy : Option AgentId) (elapsedMs : Option Int)
      (instant : Timestamp)
  | workUnitReleased (workUnitId : WorkUnitId) (instant : Timestamp)

inductive HandoffEvent where
  | handoffRequested (handoff : HandoffContract)
  | handoffAccepted (handoffId : HandoffId) (actor : Option AgentId) (notes : Option String)
      (latencyMs : Option Int) (instant : Timestamp)
  | handoffRejected (handoffId : HandoffId) (reason : String) (requiredChanges : List String)
      (latencyMs : Option Int) (instant : Timestamp)

inductive DocumentEvent where
  | documentCreated (document : Document)
  | documentContentReplaced (documentId : DocumentId) (content : String) (instant : Timestamp)
  | documentContentAppended (documentId : DocumentId) (appended : String) (instant : Timestamp)
  | documentRenamed (documentId : DocumentId) (title : String) (instant : Timestamp)
  | documentArchived (documentId : DocumentId) (instant : Timestamp)
  | documentStatusChanged (documentId : DocumentId) (fromStatus toStatus : DocumentStatus)
      (instant : Timestamp)
  | documentTaskLinkChanged (documentId : DocumentId) (taskId : Option TaskId) (instant : Timestamp)

inductive ArtifactEvent where
  | artifactRegistered (artifact : Artifact)
  | artifactOwnerAssigned (artifactId : ArtifactId) (ownerAgentId : AgentId) (instant : Timestamp)
  | artifactStatusChanged (artifactId : ArtifactId) (fromStatus toStatus : ArtifactStatus)
      (instant : Timestamp)
  | artifactChanged (artifactId : ArtifactId) (title description : Option String) (instant : Timestamp)
  | artifactWriteCommitted (artifactId : ArtifactId) (agentId : AgentId) (fencingToken : Int)
      (version : Option String) (instant : Timestamp)
  | artifactDeprecated (artifactId : ArtifactId) (reason : Option String) (instant : Timestamp)
  | artifactRelationAdded (relation : ArtifactRelation)
  | artifactRelationRemoved (relationId : ArtifactRelationId) (fromId toId : ArtifactId)
      (kind : ArtifactRelationKind) (instant : Timestamp)
  | roleArtifactStatusChanged (artifactId : ArtifactId) (fromStatus toStatus : RoleArtifactStatus)
      (instant : Timestamp)

inductive RuleEvent where
  | ruleCreated (rule : Rule)
  | ruleUpdated (rule : Rule)
  | ruleDisabled (ruleId : RuleId) (instant : Timestamp)
  | ruleDeleted (ruleId : RuleId)

inductive EvidenceEvent where
  | evidenceRecorded (evidence : Evidence)
  | evidenceSuperseded (evidenceId supersededBy : EvidenceId) (instant : Timestamp)

/-- What a fired rule did to the command that fired it. -/
inductive RuleDecision where
  | warning | blocked | overridden
  deriving DecidableEq

def RuleDecision.asStr : RuleDecision → String
  | .warning => "warning"
  | .blocked => "blocked"
  | .overridden => "overridden"

inductive OperationalEventType where
  | step | transition | error
  deriving DecidableEq

inductive OperationalOutcome where
  | ok | retry | blocked | error
  deriving DecidableEq

structure OperationalMetric where
  ts : Timestamp
  eventType : OperationalEventType
  runId : String
  nodeId : Option String
  layer : String
  name : String
  outcome : OperationalOutcome
  latencyMs : Nat
  tokens : Option JsonValue
  retryCount : Nat
  errorClass : Option String
  stuckReason : Option String
  attrs : JsonValue

/-- The audit trail and telemetry of rule evaluation. -/
inductive AuditEvent where
  | ruleFired (ruleId : RuleId) (ruleKey : String) (decision : RuleDecision) (trigger : String)
      (actor : Actor) (projectId : Option ProjectId) (planId : Option PlanId) (taskId : Option TaskId)
      (message : String) (overrideReason : Option String) (instant : Timestamp)
  | operationalMetricRecorded (metric : OperationalMetric)

inductive Event where
  | task (event : TaskEvent)
  | relation (event : RelationEvent)
  | comment (event : CommentEvent)
  | project (event : ProjectEvent)
  | plan (event : PlanEvent)
  | run (event : RunEvent)
  | session (event : SessionEvent)
  | claim (event : ClaimEvent)
  | lease (event : LeaseEvent)
  | workUnit (event : WorkUnitEvent)
  | handoff (event : HandoffEvent)
  | document (event : DocumentEvent)
  | artifact (event : ArtifactEvent)
  | rule (event : RuleEvent)
  | evidence (event : EvidenceEvent)
  | audit (event : AuditEvent)

/-- An immutable entry of the log. The store assigns `seq` on append. -/
structure EventEnvelope where
  id : EventId
  seq : Nat
  occurredAt : Timestamp
  actor : Actor
  originDeviceId : Option DeviceId
  originSeq : Nat
  payload : Event

/-- A local envelope that has not been appended. -/
def EventEnvelope.new (id : EventId) (now : Timestamp) (actor : Actor) (payload : Event) : EventEnvelope :=
  ⟨id, 0, now, actor, none, 0, payload⟩

end Daruma
