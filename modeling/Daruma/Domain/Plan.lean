import Daruma.Domain.Task

/-! Plans, their members and sources, and the runs that execute them. -/
namespace Daruma

inductive PlanStatus where
  | draft | active | completed | abandoned
  deriving DecidableEq

structure Plan where
  id : PlanId
  projectId : ProjectId
  parentPlanId : Option PlanId
  title : String
  description : String
  goal : String
  successCriteria : List String
  status : PlanStatus
  owner : Actor
  createdAt : Timestamp
  updatedAt : Timestamp
  archivedAt : Option Timestamp
  sourceBrief : Option String
  sourceRef : Option String
  deriving DecidableEq

/-- A member task of a plan. The key of a membership is the pair of ids. -/
structure PlanTask where
  planId : PlanId
  taskId : TaskId
  position : Nat
  dependsOn : List TaskId
  deriving DecidableEq

def PlanTask.key (member : PlanTask) : PlanId × TaskId := (member.planId, member.taskId)

structure PlanPatch where
  title : Option String
  description : Option String
  goal : Option String
  successCriteria : Option (List String)
  parentPlanId : Option (Option PlanId)
  deriving DecidableEq

namespace PlanPatch

def isEmpty (self : PlanPatch) : Bool :=
  self.title.isNone && self.description.isNone && self.goal.isNone &&
    self.successCriteria.isNone && self.parentPlanId.isNone

def apply (self : PlanPatch) (plan : Plan) (now : Timestamp) : Plan :=
  { plan with
    title := self.title.getD plan.title
    description := self.description.getD plan.description
    goal := self.goal.getD plan.goal
    successCriteria := self.successCriteria.getD plan.successCriteria
    parentPlanId := self.parentPlanId.getD plan.parentPlanId
    updatedAt := now }

@[simp] theorem apply_id (self : PlanPatch) (plan : Plan) (now : Timestamp) :
    (self.apply plan now).id = plan.id := rfl

end PlanPatch

structure SourceNode where
  sourceRef : String
  label : Option String
  occurredAt : Option String
  note : Option String
  upstreamRef : Option String
  createdAt : Timestamp
  createdBy : Option Actor
  deriving DecidableEq

/-- What a caller says about a source and the sources it came from. -/
inductive SourceInput where
  | mk (sourceRef label occurredAt note : Option String) (upstream : List SourceInput)

namespace SourceInput

def sourceRef : SourceInput → Option String
  | mk sourceRef _ _ _ _ => sourceRef

def label : SourceInput → Option String
  | mk _ label _ _ _ => label

def occurredAt : SourceInput → Option String
  | mk _ _ occurredAt _ _ => occurredAt

def note : SourceInput → Option String
  | mk _ _ _ note _ => note

def upstream : SourceInput → List SourceInput
  | mk _ _ _ _ upstream => upstream

def namesNode (self : SourceInput) : Bool :=
  self.sourceRef.isSome || self.label.isSome

end SourceInput

/-- Input for creating a plan. -/
structure NewPlan where
  projectId : ProjectId
  title : String
  owner : Actor
  description : Option String
  goal : Option String
  successCriteria : Option (List String)
  parentPlanId : Option PlanId
  sourceBrief : Option String
  sourceRef : Option String
  gitContext : Option GitContext
  source : Option SourceInput
  separate : Bool

def NewPlan.new (title : String) (projectId : ProjectId) (owner : Actor) : NewPlan :=
  ⟨projectId, title, owner, none, none, none, none, none, none, none, none, false⟩

def NewPlan.intoPlan (self : NewPlan) (id : PlanId) (now : Timestamp) : Plan where
  id := id
  projectId := self.projectId
  parentPlanId := self.parentPlanId
  title := self.title
  description := self.description.getD ""
  goal := self.goal.getD ""
  successCriteria := self.successCriteria.getD []
  status := .draft
  owner := self.owner
  createdAt := now
  updatedAt := now
  archivedAt := none
  sourceBrief := self.sourceBrief
  sourceRef := self.sourceRef

inductive RunStatus where
  | active | completed | failed | aborted
  deriving DecidableEq

inductive RunOutcome where
  | done | superseded | humanCompleted | skipped
  | failed (reason : String)
  deriving DecidableEq

structure Run where
  id : RunId
  planId : PlanId
  agentId : AgentId
  parentRunId : Option RunId
  startedAt : Timestamp
  endedAt : Option Timestamp
  status : RunStatus
  outcome : Option String
  lastActivityAt : Option Timestamp
  unresponsiveAt : Option Timestamp
  staleAt : Option Timestamp
  deriving DecidableEq

/-- A step row. Steps have no key of their own in the source; `runId` is the
column that the repository selects them by. -/
structure RunStep where
  runId : RunId
  taskId : TaskId
  startedAt : Timestamp
  finishedAt : Option Timestamp
  outcome : Option RunOutcome
  deriving DecidableEq

structure RunNote where
  id : RunNoteId
  runId : RunId
  body : String
  author : Actor
  createdAt : Timestamp
  deriving DecidableEq

end Daruma
