import Daruma.Storage.Database

/-! The projection of runs, their steps and notes. -/
namespace Daruma
namespace RunRepo

def get (db : Database) (id : RunId) : Option Run := db.runs.find? id

def listActiveForPlan (db : Database) (planId : PlanId) : List Run :=
  orderBy Run.startedAt (db.runs.rows.filter fun run => run.planId = planId && run.status = .active)

def listSteps (db : Database) (runId : RunId) : List RunStep :=
  orderBy RunStep.startedAt (db.runSteps.filter fun step => step.runId = runId)

/-- The open step that started last, by row order among equals. -/
def latestOpen (isOpen : RunStep → Bool) : List (RunStep × Nat) → Option (RunStep × Nat)
  | [] => none
  | (step, row) :: rest =>
    match latestOpen isOpen rest with
    | some later => if isOpen step && later.1.startedAt < step.startedAt then some (step, row) else some later
    | none => if isOpen step then some (step, row) else none

def currentStepTask (db : Database) (runId : RunId) : Option TaskId :=
  (latestOpen (fun step => step.runId = runId && step.finishedAt = none) db.runSteps.zipIdx).map
    fun found => found.1.taskId

def updateRun (db : Database) (runId : RunId) (f : Run → Run) : Database :=
  { db with runs := db.runs.modify runId f }

def touchActivity (db : Database) (runId : RunId) (instant : Timestamp) : Database :=
  updateRun db runId fun run => { run with lastActivityAt := some instant }

def insertStep (db : Database) (runId : RunId) (taskId : TaskId) (instant : Timestamp) : Database :=
  { db with runSteps := db.runSteps ++ [⟨runId, taskId, instant, none, none⟩] }

/-- Close the latest open step of a task, or record a step that started and
finished at once. -/
def finishStepRow (db : Database) (runId : RunId) (taskId : TaskId) (outcome : RunOutcome)
    (instant : Timestamp) : Database :=
  let isOpen := fun step : RunStep => step.runId = runId && step.taskId = taskId && step.finishedAt = none
  match latestOpen isOpen db.runSteps.zipIdx with
  | some (step, row) =>
    { db with runSteps :=
        db.runSteps.set row { step with finishedAt := some instant, outcome := some outcome } }
  | none =>
    { db with runSteps := db.runSteps ++ [⟨runId, taskId, instant, some instant, some outcome⟩] }

/-- A stored run has a heartbeat. Replacing a run row cascades to its notes. -/
def upsertRun (db : Database) (run : Run) : Database :=
  { db with
    runs := db.runs.insertOrReplace { run with lastActivityAt := some (run.lastActivityAt.getD run.startedAt) }
    runNotes := if db.runs.contains run.id then db.runNotes.filter fun note => note.runId ≠ run.id
      else db.runNotes }

def endRun (status : RunStatus) (outcome : String) (instant : Timestamp) (run : Run) : Run :=
  { run with status := status, endedAt := some instant, outcome := some outcome }

def applyRunEvent (db : Database) : RunEvent → Database
  | .runStarted run => upsertRun db run
  | .runStepStarted runId taskId instant =>
    insertStep (touchActivity db runId instant) runId taskId instant
  | .runStepFinished runId taskId outcome instant =>
    finishStepRow (touchActivity db runId instant) runId taskId outcome instant
  | .runCompleted runId instant => updateRun db runId (endRun .completed "done" instant)
  | .runFailed runId reason instant => updateRun db runId (endRun .failed reason instant)
  | .runAborted runId reason instant => updateRun db runId (endRun .aborted reason instant)
  | .runUnresponsive runId instant => updateRun db runId fun run =>
    { run with unresponsiveAt := run.unresponsiveAt.or (some instant) }
  | .runStale runId instant => updateRun db runId fun run =>
    { run with staleAt := run.staleAt.or (some instant) }
  | .runNoteAppended .. | .runObsolescedByPlanEdit .. | .runStopRequested .. | .runElicitationRequested ..
  | .runAuthRequired .. | .runInterventionAccepted .. => db

def applyEvent (db : Database) (envelope : EventEnvelope) : Database :=
  match envelope.payload with
  | .run event => applyRunEvent db event
  | _ => db

theorem applyRunEvent_frame (db : Database) (event : RunEvent) : ∃ runs runSteps runNotes, applyRunEvent db event =
      { db with runs := runs, runSteps := runSteps, runNotes := runNotes } := by
  cases event with
  | runStepFinished runId taskId outcome instant =>
    change ∃ runs runSteps runNotes, finishStepRow (touchActivity db runId instant) runId taskId outcome
      instant = _
    unfold finishStepRow
    dsimp only
    split
    · exact ⟨_, _, _, rfl⟩
    · exact ⟨_, _, _, rfl⟩
  | _ => exact ⟨_, _, _, rfl⟩

theorem applyEvent_frame (db : Database) (envelope : EventEnvelope) :
    ∃ runs runSteps runNotes, applyEvent db envelope =
      { db with runs := runs, runSteps := runSteps, runNotes := runNotes } := by
  unfold applyEvent
  split
  · exact applyRunEvent_frame db _
  · exact ⟨_, _, _, rfl⟩

end RunRepo

namespace RunNoteRepo

/-- A note references its run. -/
def applyEvent (db : Database) (envelope : EventEnvelope) : Result Database :=
  match envelope.payload with
  | .run (.runNoteAppended runId noteId body actor instant) =>
    if db.runs.contains runId then
      .ok { db with runNotes := db.runNotes.insertOrReplace ⟨noteId, runId, body, actor, instant⟩ }
    else .error (.storage "FOREIGN KEY constraint failed")
  | _ => .ok db

theorem applyEvent_frame {db db' : Database} {envelope : EventEnvelope}
    (h : applyEvent db envelope = .ok db') : ∃ runNotes, db' = { db with runNotes := runNotes } := by
  unfold applyEvent at h
  split at h
  · split at h
    · cases h
      exact ⟨_, rfl⟩
    · cases h
  · cases h
    exact ⟨_, rfl⟩

end RunNoteRepo
end Daruma
