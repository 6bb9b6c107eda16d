import Daruma.Storage.Database

/-! The activity feed: the rows of a task as far as a command reads them, and the feed with all
that it says, with its repair from the log at a start. -/
namespace Daruma
namespace ActivityRepo

def taskText : Event → Option (TaskId × Option String × Option String × Option ActivityText)
  | .task (.taskCreated task) => task.id.map fun id => (id, none, none, some (.plain task.title))
  | .task (.taskUpdated taskId patch) => some (taskId, none, none, some (.patch patch))
  | .task (.taskStatusChanged taskId fromStatus toStatus) =>
    some (taskId, some "status", some fromStatus.asStr, some (.plain toStatus.asStr))
  | .task (.taskPriorityChanged taskId fromPriority toPriority) =>
    some (taskId, some "priority", some fromPriority.asStr, some (.plain toPriority.asStr))
  | .task (.taskCompleted taskId _ _) | .task (.taskUnblocked taskId ..) =>
    some (taskId, none, none, some .record)
  | .task (.taskDueElapsed taskId ..) => some (taskId, some "due_at", none, some .record)
  | .comment (.commentAdded comment) =>
    some (comment.taskId, none, none, some (.plain (String.ofList (comment.body.toList.take 80))))
  | .comment (.taskCommented taskId _ _ preview) => some (taskId, none, none, some (.plain preview))
  | .plan (.planTaskAdded _ taskId ..) | .plan (.planTaskRemoved _ taskId) =>
    some (taskId, none, none, some .record)
  | .relation (.taskLinked _ source ..) | .relation (.taskUnlinked _ source ..) =>
    some (source, none, none, some .record)
  | .relation (.taskRelationKindChanged _ source ..) => some (source, some "kind", none, some .record)
  | .audit (.ruleFired _ ruleKey decision _ _ _ _ (some taskId) message ..) =>
    some (taskId, some ruleKey, some decision.asStr, some (.plain message))
  | _ => none

def applyEvent (activity : List Activity) (envelope : EventEnvelope) : List Activity :=
  match taskText envelope.payload with
  | none => activity
  | some (taskId, field, oldValue, newValue) =>
    activity ++ [⟨taskId, field, oldValue, newValue, envelope.occurredAt, envelope.seq⟩]

/-- The feed of a task, in the order of the log. -/
def listForTask (db : Database) (taskId : TaskId) : List Activity :=
  orderBy Activity.seq (db.activity.filter fun row => row.taskId = taskId)

end ActivityRepo

/-- What a row says happened. -/
inductive Verb where
  | created | updated | statusChanged | priorityChanged | closed | reopened | completed | deleted | splitGenerated | dueElapsed
  | projectCreated | projectUpdated | projectDeleted
  | commented | commentEdited | commentDeleted
  | agentAction
  | planCreated | planModified | planArchived | planReparented
  | runStarted | runCompleted | runFailed | runAborted
  | taskAttached | taskDetached
  | taskClaimed | taskReleased
  | linked | unlinked | unblocked | relationKindChanged
  | ruleFired
  deriving DecidableEq

namespace ActivityFeed

/-- A value of a row. What is written as text of a record is kept as the record. -/
inductive FeedText where
  | plain (text : String)
  | patch (patch : TaskPatch)
  | note (note : CompletionNote)
  | autoAppend (settings : AutoAppendSettings)
  | planStatus (status : PlanStatus)
  | plan (id : PlanId)
  | run (id : RunId)
  | instant (instant : Timestamp)
  | relationKind (kind : RelationKind)
  | relation (id : RelationId) (kind : RelationKind) (target : TaskId)
  | unblockedBy (id : TaskId)
  | transition (id : RelationId) (fromKind toKind : RelationKind) (target : TaskId)

inductive ProjectSource where
  | given (projectId : Option ProjectId)
  | ofTask (id : TaskId)
  | ofPlan (id : PlanId)
  | ofRun (id : RunId)

/-- A row before its project is known. -/
structure Entry where
  taskId : Option TaskId
  project : ProjectSource
  verb : Verb
  field : Option String
  oldValue : Option FeedText
  newValue : Option FeedText

/-- A row of a task whose event does not say the project. -/
def Entry.ofTask (id : TaskId) (verb : Verb) (newValue : Option FeedText) : Entry :=
  ⟨some id, .ofTask id, verb, none, none, newValue⟩

/-- The rows of the three semantic events are for logs without the event before. -/
def taskEntry : TaskEvent → Option Entry
  | .taskCreated task => some ⟨task.id, .given task.projectId, .created, none, none, some (.plain task.title)⟩
  | .taskUpdated taskId patch => some (.ofTask taskId .updated (some (.patch patch)))
  | .taskStatusChanged taskId fromStatus toStatus =>
    some ⟨some taskId, .ofTask taskId, .statusChanged, some "status", some (.plain fromStatus.asStr),
      some (.plain toStatus.asStr)⟩
  | .taskPriorityChanged taskId fromPriority toPriority =>
    some ⟨some taskId, .ofTask taskId, .priorityChanged, some "priority", some (.plain fromPriority.asStr),
      some (.plain toPriority.asStr)⟩
  | .taskCompleted taskId _ completionNote =>
    some (.ofTask taskId .completed ((completionNote.filter CompletionNote.isSubstantive).map .note))
  | .taskDeleted taskId => some (.ofTask taskId .deleted none)
  | .taskSplitGenerated parent _ => some (.ofTask parent .splitGenerated none)
  | .taskClosed taskId .. => some (.ofTask taskId .closed none)
  | .taskReopened taskId .. => some (.ofTask taskId .reopened none)
  | .taskUnblocked taskId unblockedBy _ => some (.ofTask taskId .unblocked (some (.unblockedBy unblockedBy)))
  | .taskDueElapsed taskId dueAt _ =>
    some ⟨some taskId, .ofTask taskId, .dueElapsed, some "due_at", none, some (.instant dueAt)⟩
  | .taskContested .. => none

def commentEntry : CommentEvent → Option Entry
  | .commentAdded comment =>
    some (.ofTask comment.taskId .commented (some (.plain (String.ofList (comment.body.toList.take 80)))))
  | .commentEdited _ taskId .. => some (.ofTask taskId .commentEdited none)
  | .commentDeleted _ taskId _ => some (.ofTask taskId .commentDeleted none)
  | .taskCommented taskId _ _ preview => some (.ofTask taskId .commented (some (.plain preview)))

def relationEntry : RelationEvent → Option Entry
  | .taskLinked relationId source target kind .. =>
    some (.ofTask source .linked (some (.relation relationId kind target)))
  | .taskUnlinked relationId source target kind _ =>
    some (.ofTask source .unlinked (some (.relation relationId kind target)))
  | .taskRelationKindChanged relationId source target fromKind toKind _ =>
    some ⟨some source, .ofTask source, .relationKindChanged, some "kind", some (.relationKind fromKind),
      some (.transition relationId fromKind toKind target)⟩

def projectEntry : ProjectEvent → Option Entry
  | .projectCreated project => some ⟨none, .given (some project.id), .projectCreated, none, none, some (.plain project.title)⟩
  | .projectUpdated projectId .. => some ⟨none, .given (some projectId), .projectUpdated, none, none, none⟩
  | .projectSettingsChanged projectId autoAppend .. =>
    some ⟨none, .given (some projectId), .projectUpdated, some "settings.auto_append", none, some (.autoAppend autoAppend)⟩
  | .projectDeleted projectId => some ⟨none, .given (some projectId), .projectDeleted, none, none, none⟩

/-- A change of the plan above has a verb of its own. -/
def planUpdatedEntry (planId : PlanId) (patch : PlanPatch) : Entry :=
  match patch.parentPlanId with
  | some (some parent) => ⟨none, .ofPlan planId, .planReparented, some "parent_plan_id", none, some (.plan parent)⟩
  | some none => ⟨none, .ofPlan planId, .planReparented, some "parent_plan_id", none, some (.plain "null")⟩
  | none => ⟨none, .ofPlan planId, .planModified, none, none, none⟩

def planEntry : PlanEvent → Option Entry
  | .planCreated plan => some ⟨none, .given (some plan.projectId), .planCreated, none, none, some (.plain plan.title)⟩
  | .planUpdated planId patch => some (planUpdatedEntry planId patch)
  | .planReordered planId _ => some ⟨none, .ofPlan planId, .planModified, none, none, none⟩
  | .planStatusChanged planId fromStatus toStatus =>
    some ⟨none, .ofPlan planId, .planModified, some "status", some (.planStatus fromStatus), some (.planStatus toStatus)⟩
  | .planGoalChanged planId fromGoal toGoal =>
    some ⟨none, .ofPlan planId, .planModified, some "goal", some (.plain fromGoal), some (.plain toGoal)⟩
  | .planTaskAdded planId taskId .. => some ⟨some taskId, .ofPlan planId, .taskAttached, none, none, some (.plan planId)⟩
  | .planTaskRemoved planId taskId => some ⟨some taskId, .ofPlan planId, .taskDetached, none, none, some (.plan planId)⟩
  | .planArchived planId _ => some ⟨none, .ofPlan planId, .planArchived, none, none, none⟩
  | .planTaskAmended .. | .planDeleted .. | .sourceUpserted _ | .planSourceSet .. | .planModifiedByHuman .. => none

def runEntry : RunEvent → Option Entry
  | .runStarted run => some ⟨none, .ofPlan run.planId, .runStarted, none, none, some (.run run.id)⟩
  | .runCompleted runId _ => some ⟨none, .ofRun runId, .runCompleted, none, none, none⟩
  | .runFailed runId reason _ => some ⟨none, .ofRun runId, .runFailed, none, none, some (.plain reason)⟩
  | .runAborted runId reason _ => some ⟨none, .ofRun runId, .runAborted, none, none, some (.plain reason)⟩
  | _ => none

/-- The gate may fire on plans and projects: only then the project is of the event, or of
nothing. -/
def ruleFiredSource : Option ProjectId → Option TaskId → ProjectSource
  | some projectId, _ => .given (some projectId)
  | none, some taskId => .ofTask taskId
  | none, none => .given none

def entryOf : Event → Option Entry
  | .task event => taskEntry event
  | .comment event => commentEntry event
  | .relation event => relationEntry event
  | .project event => projectEntry event
  | .plan event => planEntry event
  | .run event => runEntry event
  | .session (.agentActionRecorded _) => some ⟨none, .given none, .agentAction, none, none, none⟩
  | .claim (.agentClaimed _ taskId ..) => some (.ofTask taskId .taskClaimed none)
  | .claim (.agentReleased _ taskId _) => some (.ofTask taskId .taskReleased none)
  | .audit (.ruleFired _ ruleKey decision _ _ projectId _ taskId message ..) =>
    some ⟨taskId, ruleFiredSource projectId taskId, .ruleFired, some ruleKey, some (.plain decision.asStr),
      some (.plain message)⟩
  | _ => none

structure Row where
  taskId : Option TaskId
  projectId : Option ProjectId
  actor : Actor
  verb : Verb
  field : Option String
  oldValue : Option FeedText
  newValue : Option FeedText
  occurredAt : Timestamp
  eventId : EventId
  seq : Nat

abbrev Feed := List Row

def inheritProjectId (feed : Feed) (taskId : TaskId) : Option ProjectId :=
  (orderBy Row.seq (feed.filter fun row => row.taskId = some taskId)).getLast?.bind Row.projectId

def inheritPlanProjectId (db : Database) (planId : PlanId) : Option ProjectId :=
  (db.plans.find? planId).map Plan.projectId

def inheritRunProjectId (db : Database) (runId : RunId) : Option ProjectId :=
  (db.runs.find? runId).bind fun run => inheritPlanProjectId db run.planId

/-- What the tables say of a project. They say nothing of the project of a task. -/
def ProjectSource.lookup (db : Database) : ProjectSource → Option ProjectId
  | .given projectId => projectId
  | .ofTask _ => none
  | .ofPlan id => inheritPlanProjectId db id
  | .ofRun id => inheritRunProjectId db id

def ProjectSource.resolve (db : Database) (feed : Feed) : ProjectSource → Option ProjectId
  | .ofTask id => inheritProjectId feed id
  | source => source.lookup db

def Entry.row (self : Entry) (projectId : Option ProjectId) (envelope : EventEnvelope) : Row :=
  ⟨self.taskId, projectId, envelope.actor, self.verb, self.field, self.oldValue, self.newValue, envelope.occurredAt,
    envelope.id, envelope.seq⟩

/-- Insert a row. A second one of the same event is ignored. -/
def insertRow (feed : Feed) (row : Row) : Feed :=
  if feed.any fun other => other.eventId = row.eventId then feed else feed ++ [row]

def Row.isAt (self : Row) (taskId : TaskId) (seq : Nat) : Bool := self.taskId = some taskId && self.seq = seq

def updateAtSeq (feed : Feed) (taskId : TaskId) (seq : Nat) (f : Row → Row) : Option Feed :=
  if feed.any fun row => row.isAt taskId seq then
    some (feed.map fun row => if row.isAt taskId seq then f row else row)
  else none

def mergeOf : Event → Option (TaskId × (Row → Row))
  | .task (.taskClosed taskId ..) => some (taskId, fun row => { row with verb := .closed })
  | .task (.taskReopened taskId ..) => some (taskId, fun row => { row with verb := .reopened })
  | .comment (.taskCommented taskId _ _ preview) =>
    some (taskId, fun row => { row with verb := .commented, newValue := some (.plain preview) })
  | _ => none

def merged (feed : Feed) (envelope : EventEnvelope) : Option Feed :=
  (mergeOf envelope.payload).bind fun merge => updateAtSeq feed merge.1 (envelope.seq - 1) merge.2

def applyEvent (db : Database) (feed : Feed) (envelope : EventEnvelope) : Feed :=
  match merged feed envelope with
  | some feed => feed
  | none =>
    match entryOf envelope.payload with
    | none => feed
    | some entry => insertRow feed (entry.row (entry.project.resolve db feed) envelope)

def lastBackfilledSeq (feed : Feed) : Nat := (feed.map Row.seq).foldl max 0

def backfillPageSize : Nat := 1000

/-- A page of the log, which is in the order of its numbers. -/
def loadSince (log : List EventEnvelope) (since limit : Nat) : List EventEnvelope :=
  (log.filter fun envelope => since < envelope.seq).take limit

def backfillPages (db : Database) (log : List EventEnvelope) : Nat → Nat → Feed → Feed
  | 0, _, feed => feed
  | pages + 1, last, feed =>
    match loadSince log last backfillPageSize with
    | [] => feed
    | first :: rest =>
      backfillPages db log pages ((first :: rest).getLast (List.cons_ne_nil _ _)).seq
        ((first :: rest).foldl (applyEvent db) feed)

/-- Apply all events after the last row. -/
def backfillFromEvents (db : Database) (log : List EventEnvelope) (feed : Feed) : Feed :=
  backfillPages db log log.length (lastBackfilledSeq feed) feed

end ActivityFeed
end Daruma
