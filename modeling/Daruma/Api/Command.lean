import Daruma.Domain.Governance
import Daruma.Domain.Work

/-! The commands of the server. The source's one enumeration is grouped here by
the aggregate a command is about, following the sections of that enumeration. -/
namespace Daruma

inductive TaskCommand where
  | createTask (task : NewTask)
  | updateTask (id : TaskId) (patch : TaskPatch)
  | completeTask (id : TaskId) (note : Option CompletionNote)
  | deleteTask (id : TaskId)
  | setStatus (id : TaskId) (status : Status) (force : Bool) (overrideReason : Option String)
      (comment : Option TransitionComment)
  | setPriority (id : TaskId) (priority : Priority)
  | advancePipeline (id : TaskId) (position : PipelinePosition)
  | closePipelineStage (id : TaskId) (stageIndex : Nat) (instanceName : String)
      (next : Option PipelinePosition)
  | bulkSetStatus (ids : List TaskId) (status : Status)
  | splitTask (parent : TaskId) (subtasks : List NewTask)

inductive RelationCommand where
  | linkTasks (source target : TaskId) (kind : RelationKind)
  | unlinkTasks (id : RelationId)

inductive CommentCommand where
  | addComment (comment : NewComment)
  | editComment (id : CommentId) (patch : CommentPatch)
  | deleteComment (id : CommentId)

inductive ProjectCommand where
  | createProject (title : String) (description : Option String)
  | updateProjectSettings (projectId : ProjectId) (autoAppend : AutoAppendPatch)
      (intakeSource : Option (Option IntakeSourcePolicy)) (audit : Option (Option JsonValue))
  | updateProject (id : ProjectId) (title : Option String) (description : Option (Option String))
  | deleteProject (id : ProjectId)

inductive PlanCommand where
  | createPlan (plan : NewPlan) (externalRef : Option (String × String × String))
  | materializePlan (plan : NewPlan) (tasks : List NewTask) (planId : Option PlanId)
  | extendSource (planId : Option PlanId) (sourceRef : Option String) (source : Option SourceInput)
      (upstream : List SourceInput)
  | updatePlan (id : PlanId) (patch : PlanPatch)
  | amendPlanTask (planId : PlanId) (taskId : TaskId) (patch : TaskPatch)
  | archivePlan (id : PlanId)
  | deletePlan (id : PlanId)
  | addPlanTask (planId : PlanId) (taskId : TaskId) (position : Option Nat)
      (dependsOn : Option (List TaskId))
  | bulkAttachToPlan (planId : PlanId) (taskIds : List TaskId)
  | removePlanTask (planId : PlanId) (taskId : TaskId)
  | reorderPlan (planId : PlanId) (order : List TaskId)
  | setPlanGoal (planId : PlanId) (goal : String)
  | setPlanStatus (planId : PlanId) (status : PlanStatus) (force : Bool) (overrideReason : Option String)

inductive RunCommand where
  | startRun (planId : PlanId) (agentId : AgentId) (parentRunId : Option RunId)
  | runStartStep (runId : RunId) (taskId : TaskId)
  | runFinishStep (runId : RunId) (taskId : TaskId) (outcome : RunOutcome)
  | completeRun (runId : RunId)
  | failRun (runId : RunId) (reason : String)
  | abortRun (runId : RunId) (reason : String)
  | appendRunNote (runId : RunId) (body : String)
  | sendRunSignal (runId : RunId) (kind : SignalKind)
  | respondRunSignal (runId : RunId) (choice : String)

inductive SessionCommand where
  | startAgentSession (agentId : AgentId) (parentAgentId : Option AgentId) (metadata : Option JsonValue)
  | endAgentSession (id : AgentSessionId)
  | updateAgentSessionPlan (id : AgentSessionId) (steps : List AgentSessionPlanStep)
  | attachSessionArtifact (sessionId : AgentSessionId) (kind : SessionArtifactKind) (reference : String)
      (metadata : Option JsonValue)
  | recordAgentAction (action : AgentAction)

inductive ClaimCommand where
  | acquireClaim (agentId : AgentId) (taskId : TaskId) (claimId : ClaimId) (expiresAt : Timestamp)
  | releaseClaim (agentId : AgentId) (taskId : TaskId)

inductive LeaseCommand where
  | reserveFiles (leases : List WorkLease)
  | releaseFiles (agentId : AgentId) (taskId : TaskId) (leaseIds : Option (List WorkLeaseId))

inductive WorkUnitCommand where
  | createWorkUnit (workUnit : NewWorkUnit)
  | completeWorkUnit (id : WorkUnitId) (outcome : Option String) (producedArtifacts : List String)
      (nextSuggestedUnits : List WorkUnitId)
  | releaseWorkUnit (id : WorkUnitId)
  | setWorkUnitStatus (id : WorkUnitId) (status : WorkUnitStatus) (reason : Option String)

inductive HandoffCommand where
  | requestHandoff (handoff : NewHandoffContract)
  | acceptHandoff (handoffId : HandoffId) (notes : Option String)
  | rejectHandoff (handoffId : HandoffId) (reason : String) (requiredChanges : List String)

inductive DocumentCommand where
  | createDocument (newDoc : NewDocument)
  | replaceDocumentContent (documentId : DocumentId) (content : String)
  | appendDocumentContent (documentId : DocumentId) (append : String)
  | renameDocument (documentId : DocumentId) (title : String)
  | archiveDocument (documentId : DocumentId)
  | setDocumentStatus (documentId : DocumentId) (status : DocumentStatus)
  | linkDocumentToTask (documentId : DocumentId) (taskId : Option TaskId)

inductive RuleCommand where
  | createRule (rule : NewRule)
  | updateRule (id : RuleId) (patch : RulePatch)
  | disableRule (id : RuleId)
  | deleteRule (id : RuleId)

inductive ArtifactCommand where
  | registerArtifact (artifact : NewArtifact)
  | updateArtifact (artifactId : ArtifactId) (title description : Option String)
  | commitArtifactWrite (artifactId : ArtifactId) (agentId : AgentId) (fencingToken : Int)
      (version : Option String)
  | deprecateArtifact (artifactId : ArtifactId) (reason : Option String)
  | addArtifactRelation (source target : ArtifactId) (kind : ArtifactRelationKind)
  | removeArtifactRelation (source target : ArtifactId) (kind : ArtifactRelationKind)
  | assignArtifactOwner (artifactId : ArtifactId) (ownerAgentId : AgentId)
  | changeArtifactStatus (artifactId : ArtifactId) (toStatus : ArtifactStatus)
  | proposeRoleArtifact (taskId : TaskId) (role kind : String) (payload : JsonValue)
      (title : Option String) (supersedes artifactId : Option ArtifactId)
  | setRoleArtifactStatus (artifactId : ArtifactId) (toStatus : RoleArtifactStatus)

inductive Command where
  | task (command : TaskCommand)
  | relation (command : RelationCommand)
  | comment (command : CommentCommand)
  | project (command : ProjectCommand)
  | plan (command : PlanCommand)
  | run (command : RunCommand)
  | session (command : SessionCommand)
  | claim (command : ClaimCommand)
  | lease (command : LeaseCommand)
  | workUnit (command : WorkUnitCommand)
  | handoff (command : HandoffCommand)
  | document (command : DocumentCommand)
  | rule (command : RuleCommand)
  | evidence (evidence : NewEvidence)
  | artifact (command : ArtifactCommand)

end Daruma
