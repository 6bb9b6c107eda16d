import Daruma.Storage.Database

/-! The projection of tasks. A task row is rewritten whole; its external key is
unique among the rows that have one, and its pipeline position is metadata that
a rewrite keeps. -/
namespace Daruma

abbrev Tasks := KeyedTable TaskId Task Task.id

namespace TaskRepo

def get (db : Database) (id : TaskId) : Option Task := db.tasks.find? id

def pipelinePosition (db : Database) (id : TaskId) : Option PipelinePosition :=
  (db.tasks.find? id).bind Task.pipelinePosition

def findByExternalKey (db : Database) (externalKey : String) : Option Task :=
  db.tasks.rows.find? fun task => task.externalKey = some externalKey

/-- The unique index over external keys refuses a row. -/
def keyTaken (tasks : Tasks) (task : Task) : Bool :=
  task.externalKey.isSome && tasks.rows.any fun other =>
    other.externalKey = task.externalKey && other.id ≠ task.id

/-- Insert a row, or rewrite the row of its id. -/
def upsertTask (tasks : Tasks) (task : Task) : Result Tasks :=
  if keyTaken tasks task then .error (.storage "UNIQUE constraint failed: tasks.external_key")
  else .ok (tasks.upsert { task with
    pipelinePosition := (tasks.find? task.id).bind Task.pipelinePosition })

def newTaskRow (envelope : EventEnvelope) (sourceEventId : Option EventId) (id : TaskId)
    (new : NewTask) : Task where
  id := new.id.getD id
  projectId := new.projectId
  title := new.title
  description := new.description.getD ""
  status := new.status.getD .inbox
  priority := new.priority.getD .p2
  triageState := new.triageState
  dueAt := new.dueAt
  createdAt := envelope.occurredAt
  updatedAt := envelope.occurredAt
  startedAt := none
  completedAt := none
  createdBy := some envelope.actor
  completedBy := none
  updatedBy := some envelope.actor
  updatedEventId := some envelope.id
  updatedEventSeq := some envelope.seq
  sourceEventId := sourceEventId
  externalKey := new.externalKey
  gitContext := none
  pipelinePosition := none

def stampLastChange (envelope : EventEnvelope) (task : Task) : Task :=
  { task with
    updatedBy := some envelope.actor
    updatedEventId := some envelope.id
    updatedEventSeq := some envelope.seq }

/-- Rewrite a row, when there is one. -/
def updateTask (tasks : Tasks) (id : TaskId) (f : Task → Task) : Result Tasks :=
  match tasks.find? id with
  | none => .ok tasks
  | some task => upsertTask tasks (f task)

def stampPipelinePosition (tasks : Tasks) (id : TaskId) (position : PipelinePosition) : Tasks :=
  tasks.modify id fun task => { task with pipelinePosition := some position }

def patchRow (envelope : EventEnvelope) (patch : TaskPatch) (task : Task) : Task :=
  stampLastChange envelope (patch.apply task envelope.occurredAt)

def statusRow (envelope : EventEnvelope) (toStatus : Status) (task : Task) : Task :=
  stampLastChange envelope { task with
    status := toStatus
    updatedAt := envelope.occurredAt
    startedAt :=
      if toStatus = .inProgress || toStatus = .done then
        task.startedAt.or (some envelope.occurredAt)
      else task.startedAt
    completedBy := if toStatus = .done then some envelope.actor else task.completedBy }

def priorityRow (envelope : EventEnvelope) (toPriority : Priority) (task : Task) : Task :=
  stampLastChange envelope { task with priority := toPriority, updatedAt := envelope.occurredAt }

def completedRow (envelope : EventEnvelope) (completedAt : Timestamp) (task : Task) : Task :=
  stampLastChange envelope { task with
    status := .done
    updatedAt := envelope.occurredAt
    completedAt := some completedAt
    startedAt := task.startedAt.or (some completedAt)
    completedBy := some envelope.actor }

def reopenedRow (envelope : EventEnvelope) (instant : Timestamp) (task : Task) : Task :=
  stampLastChange envelope { task with completedAt := none, updatedAt := instant }

def closedRow (envelope : EventEnvelope) (instant : Timestamp) (task : Task) : Task :=
  stampLastChange envelope { task with
    completedAt := some instant
    updatedAt := instant
    startedAt := task.startedAt.or (some instant) }

/-- Insert the rows of a split in one transaction. -/
def insertSubtasks (env : Env) (envelope : EventEnvelope) :
    Tasks → Nat → List NewTask → Result Tasks
  | tasks, _, [] => .ok tasks
  | tasks, n, new :: rest =>
    match upsertTask tasks (newTaskRow envelope (some envelope.id) (env.fresh n) new) with
    | .error e => .error e
    | .ok tasks' => insertSubtasks env envelope tasks' (n + 1) rest

def applyTaskEvent (tasks : Tasks) (env : Env) (envelope : EventEnvelope) : TaskEvent → Result Tasks
  | .taskCreated new =>
    upsertTask tasks (newTaskRow envelope new.sourceEventId (env.fresh 0) new)
  | .taskUpdated taskId patch =>
    match updateTask tasks taskId (patchRow envelope patch) with
    | .error e => .error e
    | .ok tasks' =>
      match patch.pipelinePosition with
      | none => .ok tasks'
      | some position => .ok (stampPipelinePosition tasks' taskId position)
  | .taskStatusChanged taskId _ toStatus => updateTask tasks taskId (statusRow envelope toStatus)
  | .taskPriorityChanged taskId _ toPriority =>
    updateTask tasks taskId (priorityRow envelope toPriority)
  | .taskCompleted taskId completedAt _ => updateTask tasks taskId (completedRow envelope completedAt)
  | .taskDeleted taskId => .ok (tasks.erase taskId)
  | .taskSplitGenerated _ subtasks => insertSubtasks env envelope tasks 0 subtasks
  | .taskReopened taskId _ instant => updateTask tasks taskId (reopenedRow envelope instant)
  | .taskClosed taskId _ instant => updateTask tasks taskId (closedRow envelope instant)
  | .taskUnblocked .. | .taskDueElapsed .. | .taskContested .. => .ok tasks

def applyEvent (tasks : Tasks) (env : Env) (envelope : EventEnvelope) : Result Tasks :=
  match envelope.payload with
  | .task event => applyTaskEvent tasks env envelope event
  | _ => .ok tasks

end TaskRepo
end Daruma
