import Daruma.Shared.Ids
import Daruma.Shared.Text

/-! Tasks, the people who act on them, and the pipeline position a task can have. -/
namespace Daruma

/-- Who issued a command or authored an event. -/
inductive Actor where
  | user (id : Option AgentId) (name client : Option String)
  | agent (id : AgentId) (name : String) (client : Option String)
  deriving DecidableEq

namespace Actor

def anyUser : Actor := .user none none none

def principalId : Actor → Option AgentId
  | .user id _ _ => id
  | .agent id _ _ => some id

def isAgent : Actor → Bool
  | .user .. => false
  | .agent .. => true

end Actor

/-- The flattened actor stored with completion notes and evidence. -/
structure ActorRef where
  kind : String
  id : Option AgentId
  name : Option String
  deriving DecidableEq

def ActorRef.fromActor : Actor → ActorRef
  | .user id name _ => ⟨"user", id, name⟩
  | .agent id name _ => ⟨"agent", some id, some name⟩

inductive Status where
  | inbox | todo | inProgress | inReview | done | cancelled
  deriving DecidableEq, Inhabited

namespace Status

def isTerminal : Status → Bool
  | .done | .cancelled => true
  | _ => false

def asStr : Status → String
  | .inbox => "inbox"
  | .todo => "todo"
  | .inProgress => "in_progress"
  | .inReview => "in_review"
  | .done => "done"
  | .cancelled => "cancelled"

/-- The derived `Debug` form. -/
def debug : Status → String
  | .inbox => "Inbox"
  | .todo => "Todo"
  | .inProgress => "InProgress"
  | .inReview => "InReview"
  | .done => "Done"
  | .cancelled => "Cancelled"

end Status

inductive Priority where
  | p0 | p1 | p2 | p3
  deriving DecidableEq

def Priority.asStr : Priority → String
  | .p0 => "p0"
  | .p1 => "p1"
  | .p2 => "p2"
  | .p3 => "p3"

inductive TriageState where
  | pending | accepted | rejected
  deriving DecidableEq

/-- Where the work for a task lives in Git, as its worker reported it. -/
structure GitContext where
  repo : Option String
  branch : Option String
  headSha : Option String
  mrUrl : Option String
  deriving DecidableEq

namespace GitContext

private def clean (value : Option String) (name : String) (max : Nat) :
    Except String (Option String) :=
  match value with
  | none => .ok none
  | some raw =>
    let value := trim raw
    if value = "" then .ok none
    else if charCount value > max then
      .error s!"git_context.{name} is longer than {max} characters"
    else if value.toList.any isControl then
      .error s!"git_context.{name} contains control characters"
    else .ok (some value)

private def isHexDigit (c : Char) : Bool :=
  c.isDigit || ('a' ≤ c && c ≤ 'f') || ('A' ≤ c && c ≤ 'F')

/-- Trim fields, drop empties, and reject shapes that cannot be a Git context. -/
def normalized (self : GitContext) : Except String GitContext := do
  let repo ← clean self.repo "repo" 512
  let branch ← clean self.branch "branch" 256
  let headSha ← clean self.headSha "head_sha" 64
  let mrUrl ← clean self.mrUrl "mr_url" 2048
  let headSha ← match headSha with
    | none => pure none
    | some sha =>
      if byteLength sha < 7 || !sha.toList.all isHexDigit then
        .error "git_context.head_sha must be 7–64 hex characters"
      else pure (some (toAsciiLowercase sha))
  match mrUrl with
  | none => pure ()
  | some url =>
    if !("https://".toList.isPrefixOf url.toList || "http://".toList.isPrefixOf url.toList) ||
        url.toList.any isWhiteSpace then
      .error "git_context.mr_url must be an absolute http(s) URL"
  if repo.isNone && branch.isNone && headSha.isNone && mrUrl.isNone then
    .error "git_context must set at least one of repo, branch, head_sha, mr_url"
  pure ⟨repo, branch, headSha, mrUrl⟩

end GitContext

/-- A task's place in a role pipeline, kept in its stored metadata. -/
structure PipelinePosition where
  stageIndex : Nat
  role : String
  complete : Bool
  fanout : Nat
  required : Bool
  closed : List String
  deriving DecidableEq

def reviewRoles : List String := ["reviewer", "reconciler"]

def maxStageFanout : Nat := 16

/-- What one instance reporting its part of a stage closed amounts to. -/
inductive FanIn where
  | repeated
  | pending (closed fanout : Nat)
  | closed
  deriving DecidableEq

namespace PipelinePosition

def validate (self : PipelinePosition) : Except String Unit :=
  let role := trim self.role
  if role = "" then .error "pipeline_position.role must not be empty"
  else if byteLength role > 64 then .error "pipeline_position.role must not exceed 64 bytes"
  else if self.fanout = 0 || self.fanout > maxStageFanout then
    .error s!"pipeline_position.fanout must be 1..={maxStageFanout}"
  else .ok ()

def fanInClosed (self : PipelinePosition) : Bool :=
  self.fanout ≤ self.closed.length

def closeInstance (self : PipelinePosition) (instanceId : String) :
    Except String (FanIn × PipelinePosition) :=
  let name := trim instanceId
  if name = "" || byteLength name > 128 then .error "instance must be 1..=128 bytes"
  else if self.complete then .error "pipeline_complete: the pipeline has no open stage"
  else if name ∈ self.closed then .ok (.repeated, self)
  else if self.fanInClosed then
    .error s!"fan_in_full: stage {self.stageIndex} ({self.role}) already has all {self.fanout} instances closed"
  else
    let next := { self with closed := self.closed ++ [name] }
    if next.fanInClosed then .ok (.closed, next)
    else .ok (.pending next.closed.length next.fanout, next)

end PipelinePosition

/-- The fan-in barrier: a required stage with open instances cannot be left. -/
def fanInBlocks (current : PipelinePosition) : Option String :=
  if current.complete || !current.required || current.fanout ≤ 1 || current.fanInClosed then none
  else some (s!"fan_in_pending: stage {current.stageIndex} ({current.role}) closed {current.closed.length} of {current.fanout} required instances; it " ++
    "advances only after every instance reports through close_pipeline_stage")

/-- The single derivation of a pipeline-managed task's status. -/
def canonicalStatus (position : PipelinePosition) : Status :=
  if position.complete then .done
  else if trim position.role ∈ reviewRoles then .inReview
  else .inProgress

/-- Managed tasks accept only a cancelling direct status write. -/
def directStatusWriteAllowed (position : Option PipelinePosition) (toStatus : Status) : Bool :=
  position.isNone || toStatus = .cancelled

/-- A task row. `pipelinePosition` is the entry of the row's `metadata_json`
column that holds the pipeline position; every other field is a field of the
source's entity. -/
structure Task where
  id : TaskId
  projectId : Option ProjectId
  title : String
  description : String
  status : Status
  priority : Priority
  triageState : Option TriageState
  dueAt : Option Timestamp
  createdAt : Timestamp
  updatedAt : Timestamp
  startedAt : Option Timestamp
  completedAt : Option Timestamp
  createdBy : Option Actor
  completedBy : Option Actor
  updatedBy : Option Actor
  updatedEventId : Option EventId
  updatedEventSeq : Option Nat
  sourceEventId : Option EventId
  externalKey : Option String
  gitContext : Option GitContext
  pipelinePosition : Option PipelinePosition
  deriving DecidableEq

/-- Input for creating a task. -/
structure NewTask where
  id : Option TaskId
  projectId : Option ProjectId
  title : String
  description : Option String
  status : Option Status
  priority : Option Priority
  triageState : Option TriageState
  dueAt : Option Timestamp
  externalKey : Option String
  sourceEventId : Option EventId
  deriving DecidableEq

/-- The input that names a title and nothing else. -/
def NewTask.new (title : String) : NewTask :=
  ⟨none, none, title, none, none, none, none, none, none, none⟩

/-- A sparse update: `none` leaves a field alone, an inner `none` clears it. -/
structure TaskPatch where
  title : Option String
  description : Option String
  status : Option Status
  priority : Option Priority
  triageState : Option (Option TriageState)
  dueAt : Option (Option Timestamp)
  projectId : Option (Option ProjectId)
  gitContext : Option (Option GitContext)
  pipelinePosition : Option PipelinePosition
  deriving DecidableEq

namespace TaskPatch

/-- The patch that changes nothing. -/
def none : TaskPatch :=
  ⟨.none, .none, .none, .none, .none, .none, .none, .none, .none⟩

def isEmpty (self : TaskPatch) : Bool :=
  self.title.isNone && self.description.isNone && self.status.isNone && self.priority.isNone &&
    self.triageState.isNone && self.dueAt.isNone && self.projectId.isNone &&
    self.gitContext.isNone && self.pipelinePosition.isNone

/-- Write the patched fields. The pipeline position is metadata, which the
projection stamps itself. -/
def apply (self : TaskPatch) (task : Task) (now : Timestamp) : Task :=
  { task with
    title := self.title.getD task.title
    description := self.description.getD task.description
    status := self.status.getD task.status
    priority := self.priority.getD task.priority
    triageState := self.triageState.getD task.triageState
    dueAt := self.dueAt.getD task.dueAt
    projectId := self.projectId.getD task.projectId
    gitContext := self.gitContext.getD task.gitContext
    updatedAt := now }

@[simp] theorem apply_status (self : TaskPatch) (task : Task) (now : Timestamp) :
    (self.apply task now).status = self.status.getD task.status := rfl

end TaskPatch

structure CompletionNote where
  actor : Option ActorRef
  reason : Option String
  resultSummary : Option String
  acceptanceCriteriaStatus : Option String
  relatedArtifacts : List String
  deriving DecidableEq

def CompletionNote.isSubstantive (self : CompletionNote) : Bool :=
  self.reason.isSome || self.resultSummary.isSome || self.acceptanceCriteriaStatus.isSome ||
    !self.relatedArtifacts.isEmpty

def planOwnedPatchFields (patch : TaskPatch) : List String :=
  (if patch.title.isSome then ["title"] else []) ++
    (if patch.description.isSome then ["description"] else []) ++
    (if patch.projectId.isSome then ["project_id"] else [])

end Daruma
