import Daruma.Core.Config

/-! The events of the commands about runs and agent sessions. -/
namespace Daruma
namespace RunCommands

open Outcome

def requireRun (db : Database) (id : RunId) : Result Run :=
  okOr (db.runs.find? id) (.notFound s!"run {id}")

/-- A row of the feed records a handoff: a status that hands a task over, or a
position of its pipeline. -/
def isHandoff (codec : TextCodec) (row : Activity) : Bool :=
  if row.field = some "status" then
    match row.newValue with
    | some (.plain toStatus) =>
      toStatus = Status.inReview.asStr || toStatus = Status.done.asStr ||
        (row.oldValue = some Status.inReview.asStr && toStatus = Status.todo.asStr)
    | _ => false
  else match row.newValue with
    | some (.plain text) => codec.jsonHasPosition text
    | some (.patch patch) => patch.pipelinePosition.isSome
    | _ => false

/-- The history of a task holds a handoff at or after an instant. -/
def handoffRecordedSince (codec : TextCodec) (db : Database) (taskId : TaskId) (since : Timestamp) : Bool :=
  (ActivityRepo.listForTask db taskId).any fun row => since ≤ row.occurredAt && isHandoff codec row

def ensureStep (codec : TextCodec) (db : Database) (runId : RunId) (step : RunStep) : Result Unit := do
  ensure step.finishedAt.isSome (.conflict
    (s!"run_postcondition_unmet: run {runId} still has an open step for task {step.taskId}; finish it with run_finish_step " ++
      "(done after the handoff transition, failed otherwise) before run_complete"))
  ensure (step.outcome ≠ some .done || handoffRecordedSince codec db step.taskId step.startedAt) (.conflict
    (s!"run_postcondition_unmet: run {runId} step for task {step.taskId} finished done, but the task has no handoff transition " ++
      "(in_review, done, review reject in_review→todo, or advance_pipeline) since the step started at " ++
      s!"{codec.rfc3339 step.startedAt}; record the transition first, or finish the step failed and abort the run"))

def ensureRunPostconditions (codec : TextCodec) (db : Database) (runId : RunId) : Result Unit :=
  (RunRepo.listSteps db runId).forM (ensureStep codec db runId)

def startRun (db : Database) (env : Env) (planId : PlanId) (agentId : AgentId) (parentRunId : Option RunId) :
    Result (List RunEvent) := do
  let plan ← requirePlan db planId
  ensure (plan.status = .active && plan.archivedAt.isNone)
    (.validation "plan must be Active to start a run")
  pure [.runStarted ⟨env.fresh 0, planId, agentId, parentRunId, env.now, none, .active, none, some env.now,
    none, none⟩]

def runStartStep (db : Database) (now : Timestamp) (runId : RunId) (taskId : TaskId) :
    Result (List RunEvent) := do
  let run ← requireRun db runId
  ensure (run.status = .active) (.validation "run is not active")
  pure [.runStepStarted runId taskId now]

/-- A repeated report of the latest closed step is answered without an event. -/
def runFinishStep (db : Database) (now : Timestamp) (runId : RunId) (taskId : TaskId) (outcome : RunOutcome) :
    Result (List RunEvent) := do
  let _ ← requireRun db runId
  let latest := (RunRepo.listSteps db runId).reverse.find? fun step => step.taskId = taskId
  if latest.any fun step => step.finishedAt.isSome && step.outcome = some outcome then pure []
  else pure [.runStepFinished runId taskId outcome now]

def completeRun (codec : TextCodec) (db : Database) (now : Timestamp) (runId : RunId) :
    Result (List RunEvent) := do
  let run ← requireRun db runId
  ensure (run.status = .active) (.conflict "run is not active")
  ensureRunPostconditions codec db runId
  pure [.runCompleted runId now]

def failRun (db : Database) (now : Timestamp) (runId : RunId) (reason : String) : Result (List RunEvent) := do
  let _ ← requireRun db runId
  pure [.runFailed runId reason now]

def abortRun (db : Database) (now : Timestamp) (runId : RunId) (reason : String) : Result (List RunEvent) := do
  let _ ← requireRun db runId
  pure [.runAborted runId reason now]

def runNoteMaxBytes : Nat := 4096

def appendRunNote (db : Database) (env : Env) (actor : Actor) (runId : RunId) (body : String) :
    Result (List RunEvent) := do
  ensure (!isBlank body) (.validation "run note body must not be empty")
  ensure (byteLength body ≤ runNoteMaxBytes)
    (.validation s!"run note body must not exceed {runNoteMaxBytes} bytes")
  let run ← requireRun db runId
  ensure (run.status = .active) (.validation "cannot append a note to a terminal run")
  pure [.runNoteAppended runId (env.fresh 0) body actor env.now]

def sendRunSignal (db : Database) (actor : Actor) (runId : RunId) (kind : SignalKind) :
    Result (List RunEvent) := do
  let _ ← requireRun db runId
  match kind with
  | .stop reason => pure [.runStopRequested runId reason actor]
  | .elicit prompt choices => pure [.runElicitationRequested runId prompt choices]
  | .authRequired scope => pure [.runAuthRequired runId scope]
  | .interventionAccepted _ => .error (.validation "use RespondRunSignal to respond to an elicitation")

def respondRunSignal (db : Database) (actor : Actor) (runId : RunId) (choice : String) :
    Result (List RunEvent) := do
  let _ ← requireRun db runId
  pure [.runInterventionAccepted runId choice actor]

def buildEvents (config : Config) (db : Database) (env : Env) (actor : Actor) :
    RunCommand → Result (List RunEvent)
  | .startRun planId agentId parentRunId => startRun db env planId agentId parentRunId
  | .runStartStep runId taskId => runStartStep db env.now runId taskId
  | .runFinishStep runId taskId outcome => runFinishStep db env.now runId taskId outcome
  | .completeRun runId => completeRun config.text db env.now runId
  | .failRun runId reason => failRun db env.now runId reason
  | .abortRun runId reason => abortRun db env.now runId reason
  | .appendRunNote runId body => appendRunNote db env actor runId body
  | .sendRunSignal runId kind => sendRunSignal db actor runId kind
  | .respondRunSignal runId choice => respondRunSignal db actor runId choice

end RunCommands

namespace SessionCommands

open Outcome

def requireSession (db : Database) (id : AgentSessionId) : Result AgentSession :=
  okOr (db.agentSessions.find? id) (.notFound s!"session {id}")

def updateAgentSessionPlan (db : Database) (id : AgentSessionId) (steps : List AgentSessionPlanStep) :
    Result (List SessionEvent) := do
  ensure (steps.length ≤ 100) (.validation "plan_steps must not exceed 100 entries")
  let _ ← requireSession db id
  pure [.agentSessionPlanUpdated id steps]

def attachSessionArtifact (db : Database) (env : Env) (sessionId : AgentSessionId)
    (kind : SessionArtifactKind) (reference : String) (metadata : Option JsonValue) :
    Result (List SessionEvent) := do
  let reference := trim reference
  ensure (reference ≠ "") (.validation "artifact ref must not be empty")
  let _ ← requireSession db sessionId
  pure [.sessionArtifactAttached ⟨env.fresh 0, sessionId, kind, reference, metadata.getD .null, env.now⟩]

def buildEvents (db : Database) (env : Env) : SessionCommand → Result (List SessionEvent)
  | .startAgentSession agentId parentAgentId metadata =>
    .ok [.agentSessionStarted ⟨env.fresh 0, agentId, parentAgentId, env.now, none, [], metadata.getD .null⟩]
  | .endAgentSession id => do
    let _ ← requireSession db id
    pure [.agentSessionEnded id env.now]
  | .updateAgentSessionPlan id steps => updateAgentSessionPlan db id steps
  | .attachSessionArtifact sessionId kind reference metadata =>
    attachSessionArtifact db env sessionId kind reference metadata
  | .recordAgentAction action => .ok [.agentActionRecorded action]

end SessionCommands
end Daruma
