import Daruma.Core.PlanSource
import Daruma.Core.TaskCommands
import Daruma.Storage.WorkUnitRepo

/-! The events of the commands about the records around tasks: relations,
comments, projects, work units, handoffs and documents. -/
namespace Daruma

open Outcome

/-- `num_milliseconds` of the time from one instant to another. -/
def elapsedMs (start finish : Timestamp) : Int := Int.tdiv (finish - start) 1000000

namespace RelationCommands

/-- Only `blocks` edges are searched for a cycle. The row is written at once. -/
def linkTasks (env : Env) (actor : Actor) (source target : TaskId) (kind : RelationKind) :
    Building (List RelationEvent) := do
  let relations ← Stateful.get
  Stateful.lift (RelationEnforcement.detectCycle relations source target kind)
  let relation : Relation := ⟨env.fresh 0, source, target, kind, env.now, actor⟩
  let linked ← Stateful.lift (RelationRepo.insert relations relation)
  Stateful.set linked
  pure [.taskLinked relation.id source target kind actor env.now]

/-- Dropping the last active blocker of a task frees it. -/
def unlinkTasks (db : Database) (now : Timestamp) (id : RelationId) : Building (List Event) := do
  let relations ← Stateful.get
  let relation ← Stateful.lift (okOr (relations.find? id) (.notFound s!"relation {id}"))
  let unblocked := relation.kind = .blocks ∧
    relation.target ∈ RelationEnforcement.listDownstreamToUnblock relations db.tasks relation.source
  Stateful.set (RelationRepo.delete relations id)
  pure (.relation (.taskUnlinked id relation.source relation.target relation.kind now) ::
    if unblocked then [.task (.taskUnblocked relation.target relation.source now)] else [])

def buildEvents (db : Database) (env : Env) (actor : Actor) : RelationCommand → Building (List Event)
  | .linkTasks source target kind => do
    let events ← linkTasks env actor source target kind
    pure (events.map .relation)
  | .unlinkTasks id => unlinkTasks db env.now id

end RelationCommands

namespace CommentCommands

def addComment (env : Env) (actor : Actor) (new : NewComment) : Result (List CommentEvent) := do
  let body := trim new.body
  ensure (body ≠ "") (.validation "comment body must not be empty")
  ensure (byteLength body ≤ 10000) (.validation "comment body must not exceed 10000 characters")
  let comment := Comment.fromNew { new with body := body } (env.fresh 0) actor env.now
  pure [.commentAdded comment,
    .taskCommented comment.taskId comment.id actor (String.ofList (body.toList.take 80))]

def requireComment (db : Database) (id : CommentId) : Result Comment := do
  let comment ← okOr (CommentRepo.get db id) (.notFound s!"comment {id}")
  ensure comment.deletedAt.isNone (.notFound s!"comment {id}")
  pure comment

def buildEvents (db : Database) (env : Env) (actor : Actor) : CommentCommand → Result (List CommentEvent)
  | .addComment comment => addComment env actor comment
  | .editComment id patch => do
    let comment ← requireComment db id
    pure [.commentEdited id comment.taskId patch env.now]
  | .deleteComment id => do
    let comment ← requireComment db id
    pure [.commentDeleted id comment.taskId env.now]

end CommentCommands

namespace ProjectCommands

/-- Runs of separators shrink to one. -/
def collapseDashes : List Char → List Char
  | '-' :: '-' :: rest => collapseDashes ('-' :: rest)
  | c :: rest => c :: collapseDashes rest
  | [] => []

def slugifyTitle (title : String) : String :=
  let dashed := collapseDashes (title.toList.map fun c => if c.isAlphanum then c.toLower else '-')
  let trimmed := trimEndChars '-' (dashed.dropWhile (· = '-'))
  let slug := if trimmed.isEmpty then "project".toList else trimmed
  String.ofList (if 64 < slug.length then trimEndChars '-' (slug.take 64) else slug)

/-- The first numbered slug that is free. One more try than there are slugs is
always enough. -/
def freeSlug (taken : List String) (base : String) : Nat → Nat → String
  | 0, suffix => s!"{base}-{suffix}"
  | tries + 1, suffix =>
    let slug := if suffix = 0 then base else s!"{base}-{suffix}"
    if slug ∈ taken then freeSlug taken base tries (suffix + 1) else slug

def createProject (db : Database) (env : Env) (title : String) (description : Option String) :
    Result (List ProjectEvent) := do
  let trimmed := trim title
  ensure (trimmed ≠ "") (.validation "project title must not be empty")
  let existing := (ProjectRepo.listAll db).map Project.slug
  let slug := freeSlug existing (slugifyTitle trimmed) (existing.length + 1) 0
  pure [.projectCreated ⟨env.fresh 0, some ProjectRepo.defaultTenantId, slug, trimmed, description, false,
    env.now, env.now⟩]

def requireProject (db : Database) (id : ProjectId) : Result Project :=
  okOr (db.projects.find? id) (.notFound s!"project {id}")

def updateProject (db : Database) (id : ProjectId) (title : Option String)
    (description : Option (Option String)) : Result (List ProjectEvent) := do
  ensure (title.isSome || description.isSome) (.validation "update must set at least one field")
  let _ ← requireProject db id
  pure [.projectUpdated id title description]

def validateAudit (config : Config) (value : JsonValue) : Result Unit :=
  match value with
  | .object _ => match config.auditSettingsValidator with
    | some validate => match validate value with
      | .ok () => .ok ()
      | .error e => .error (.validation s!"audit settings: {e}")
    | none => .ok ()
  | _ => .error (.validation "audit settings must be a JSON object or null")

def updateProjectSettings (config : Config) (db : Database) (now : Timestamp) (projectId : ProjectId)
    (autoAppend : AutoAppendPatch) (intakeSource : Option (Option IntakeSourcePolicy))
    (audit : Option (Option JsonValue)) : Result (List ProjectEvent) := do
  match intakeSource with
  | some (some policy) => PlanSource.validatePolicy config.text policy
  | _ => pure ()
  match audit with
  | some (some value) => validateAudit config value
  | _ => pure ()
  let _ ← requireProject db projectId
  let current := ProjectSettingsRepo.autoAppend db projectId
  pure [.projectSettingsChanged projectId (current.apply autoAppend) now intakeSource audit]

/-- Only the tasks of a project keep it from being deleted here. -/
def deleteProject (db : Database) (id : ProjectId) : Result (List ProjectEvent) := do
  let _ ← requireProject db id
  let attached := db.tasks.rows.countP fun task => task.projectId = some id
  ensure (attached = 0) (.conflict s!"project_not_empty: {attached} task(s) attached")
  pure [.projectDeleted id]

def buildEvents (config : Config) (db : Database) (env : Env) : ProjectCommand → Result (List ProjectEvent)
  | .createProject title description => createProject db env title description
  | .updateProjectSettings projectId autoAppend intakeSource audit =>
    updateProjectSettings config db env.now projectId autoAppend intakeSource audit
  | .updateProject id title description => updateProject db id title description
  | .deleteProject id => deleteProject db id

end ProjectCommands

namespace WorkUnitCommands

def requireWorkUnit (db : Database) (id : WorkUnitId) : Result WorkUnit :=
  okOr (db.workUnits.find? id) (.notFound s!"work unit {id}")

def requireOpenWorkUnit (db : Database) (id : WorkUnitId) : Result WorkUnit := do
  let unit ← requireWorkUnit db id
  ensure (!unit.status.isTerminal) (.conflict s!"work unit {id} already closed")
  pure unit

def createWorkUnit (db : Database) (env : Env) (new : NewWorkUnit) : Result (List WorkUnitEvent) := do
  let _ ← requireTask db new.taskId
  let unit := new.intoWorkUnit (env.fresh 0) env.now
  ensure (!isBlank unit.title) (.validation "work unit title must not be empty")
  pure [.workUnitCreated unit]

def completed (now : Timestamp) (unit : WorkUnit) (outcome : String) (producedArtifacts : List String)
    (nextSuggestedUnits : List WorkUnitId) : WorkUnitEvent :=
  .workUnitCompleted unit.id outcome producedArtifacts nextSuggestedUnits unit.ownerAgentId
    (some (elapsedMs unit.createdAt now)) now

private def debugStatus : WorkUnitStatus → String
  | .todo => "Todo"
  | .ready => "Ready"
  | .inProgress => "InProgress"
  | .blocked => "Blocked"
  | .review => "Review"
  | .done => "Done"
  | .cancelled => "Cancelled"

def setWorkUnitStatus (db : Database) (now : Timestamp) (id : WorkUnitId) (status : WorkUnitStatus)
    (reason : Option String) : Result (List WorkUnitEvent) := do
  let unit ← requireOpenWorkUnit db id
  match status with
  | .inProgress => pure [.workUnitStarted id now]
  | .blocked => pure [.workUnitBlocked id (reason.getD "blocked") now]
  | .done => pure [completed now unit "ok" [] []]
  | .ready | .todo => pure [.workUnitReleased id now]
  | other => .error (.validation (s!"unsupported work unit transition to {debugStatus other}" ++
      "                          (review/cancelled land with the handoff layer)"))

def buildEvents (db : Database) (env : Env) : WorkUnitCommand → Result (List WorkUnitEvent)
  | .createWorkUnit workUnit => createWorkUnit db env workUnit
  | .completeWorkUnit id outcome producedArtifacts nextSuggestedUnits => do
    let unit ← requireOpenWorkUnit db id
    pure [completed env.now unit (outcome.getD "ok") producedArtifacts nextSuggestedUnits]
  | .releaseWorkUnit id => do
    let _ ← requireWorkUnit db id
    pure [.workUnitReleased id env.now]
  | .setWorkUnitStatus id status reason => setWorkUnitStatus db env.now id status reason

end WorkUnitCommands

namespace HandoffCommands

open WorkUnitCommands (requireWorkUnit)

def requireHandoff (db : Database) (id : HandoffId) : Result HandoffContract :=
  okOr (HandoffRepo.get db id) (.notFound s!"handoff {id}")

def getByPair (db : Database) (source target : WorkUnitId) : Option HandoffContract :=
  db.handoffs.rows.find? fun contract =>
    contract.fromWorkUnitId = source && contract.toWorkUnitId = target

/-- A repeated request reopens the contract of the pair, unless it is accepted. -/
def requestHandoff (db : Database) (env : Env) (new : NewHandoffContract) : Result (List HandoffEvent) := do
  ensure (new.fromWorkUnitId ≠ new.toWorkUnitId) (.validation "handoff must connect two distinct work units")
  let _ ← requireWorkUnit db new.fromWorkUnitId
  let _ ← requireWorkUnit db new.toWorkUnitId
  match getByPair db new.fromWorkUnitId new.toWorkUnitId with
  | none => pure [.handoffRequested (new.intoContract (env.fresh 0) env.now)]
  | some existing =>
    if existing.status = .accepted then
      .error (.conflict s!"handoff {existing.id} for this pair is already accepted")
    else pure [.handoffRequested (new.intoContract existing.id env.now)]

def acceptHandoff (db : Database) (now : Timestamp) (actor : Actor) (id : HandoffId)
    (notes : Option String) : Result (List HandoffEvent) := do
  let contract ← requireHandoff db id
  match contract.status with
  | .accepted => pure []
  | .opened =>
    let acceptedBy := if actor.isAgent then actor.principalId else none
    pure [.handoffAccepted id acceptedBy notes (some (elapsedMs contract.updatedAt now)) now]
  | other => .error (.conflict
      s!"handoff {id} is {other.asStr}; only an open handoff can be accepted (re-request after rejection)")

def rejectHandoff (db : Database) (now : Timestamp) (id : HandoffId) (reason : String)
    (requiredChanges : List String) : Result (List HandoffEvent) := do
  ensure (!isBlank reason) (.validation "rejection reason must not be empty")
  let contract ← requireHandoff db id
  match contract.status with
  | .rejected => pure []
  | .opened =>
    pure [.handoffRejected id reason requiredChanges (some (elapsedMs contract.updatedAt now)) now]
  | other => .error (.conflict s!"handoff {id} is {other.asStr}; only an open handoff can be rejected")

def buildEvents (db : Database) (env : Env) (actor : Actor) : HandoffCommand → Result (List HandoffEvent)
  | .requestHandoff handoff => requestHandoff db env handoff
  | .acceptHandoff handoffId notes => acceptHandoff db env.now actor handoffId notes
  | .rejectHandoff handoffId reason requiredChanges => rejectHandoff db env.now handoffId reason requiredChanges

end HandoffCommands

namespace DocumentCommands

def requireDocument (db : Database) (id : DocumentId) : Result Document :=
  okOr (DocumentRepo.get db id) (.notFound s!"document {id}")

def trimmedTitle (title : String) : Result String := do
  let title := trim title
  ensure (title ≠ "") (.validation "document title must not be empty")
  ensure (byteLength title ≤ 500) (.validation "document title must not exceed 500 characters")
  pure title

def requireLiveDocumentAnchor (db : Database) (status : DocumentStatus) (taskId : Option TaskId) :
    Result Unit :=
  if DocumentRepo.isLive status then do
    let taskId ← okOr taskId (.validation "live document requires a task_id")
    let task ← requireTask db taskId
    ensure (!task.status.isTerminal) (.validation "live document requires a non-terminal task")
  else .ok ()

def createDocument (db : Database) (env : Env) (new : NewDocument) : Result (List DocumentEvent) := do
  let title ← trimmedTitle new.title
  let taskId ← okOr new.taskId (.validation
    ("document must be anchored to a task_id on creation " ++
      "(canon daruma invariant 5: \"живой документ ⇔ живой якорь\")"))
  let _ ← requireTask db taskId
  requireLiveDocumentAnchor db (new.status.getD .active) (some taskId)
  pure [.documentCreated ({ new with title := title }.intoDocument (new.id.getD (env.fresh 0)) env.now)]

def setDocumentStatus (db : Database) (now : Timestamp) (id : DocumentId) (status : DocumentStatus) :
    Result (List DocumentEvent) := do
  let doc ← requireDocument db id
  requireLiveDocumentAnchor db status doc.taskId
  if doc.status = status then pure [] else pure [.documentStatusChanged id doc.status status now]

def linkDocumentToTask (db : Database) (now : Timestamp) (id : DocumentId) (taskId : Option TaskId) :
    Result (List DocumentEvent) := do
  let doc ← requireDocument db id
  match taskId with
  | some taskId => do
    let _ ← requireTask db taskId
    pure ()
  | none => pure ()
  requireLiveDocumentAnchor db doc.status taskId
  if doc.taskId = taskId then pure [] else pure [.documentTaskLinkChanged id taskId now]

def buildEvents (db : Database) (env : Env) : DocumentCommand → Result (List DocumentEvent)
  | .createDocument newDoc => createDocument db env newDoc
  | .replaceDocumentContent documentId content => do
    let _ ← requireDocument db documentId
    pure [.documentContentReplaced documentId content env.now]
  | .appendDocumentContent documentId append => do
    let _ ← requireDocument db documentId
    pure [.documentContentAppended documentId append env.now]
  | .renameDocument documentId title => do
    let title ← trimmedTitle title
    let _ ← requireDocument db documentId
    pure [.documentRenamed documentId title env.now]
  | .archiveDocument documentId => do
    let doc ← requireDocument db documentId
    if doc.archivedAt.isSome then pure [] else pure [.documentArchived documentId env.now]
  | .setDocumentStatus documentId status => setDocumentStatus db env.now documentId status
  | .linkDocumentToTask documentId taskId => linkDocumentToTask db env.now documentId taskId

end DocumentCommands
end Daruma
