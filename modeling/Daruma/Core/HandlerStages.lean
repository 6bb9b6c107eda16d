import Daruma.Core.Projections

/-! Two stages of a call. The gate decides every check of a batch and puts on record what the
rules did. The logs of a project take lines about persisted events; a failure to write a line is
not a failure of the command. -/
namespace Daruma

open Stateful (lift get set)

namespace AutoAppend

def agentName : Actor → String
  | .agent _ name _ => name
  | .user _ (some name) _ => name
  | .user _ none _ => "user"

def projectForPlan (db : Database) (planId : PlanId) : Option ProjectId :=
  (db.plans.find? planId).map Plan.projectId

def projectForRun (db : Database) (runId : RunId) : Option ProjectId :=
  (db.runs.find? runId).bind fun run => projectForPlan db run.planId

def interviewLine (codec : TextCodec) (envelope : EventEnvelope) (action : String) : String :=
  s!"[{codec.isoSeconds envelope.occurredAt}] agent={agentName envelope.actor} action={action}"

def humanLine (codec : TextCodec) (envelope : EventEnvelope) (text : String) : String :=
  s!"{codec.humanMinutes envelope.occurredAt} — {text}"

/-- The first 120 characters of a note, on one line. -/
def notePreview (body : String) : String :=
  String.ofList (((trim body).toList.map fun c => if c = '\n' then ' ' else c).take 120)

def renderLogLine (codec : TextCodec) (env : Env) (db : Database) (envelope : EventEnvelope) :
    Option (ProjectId × DocumentKind × String) :=
  let interview := fun (projectId : ProjectId) (action : String) =>
    (projectId, DocumentKind.interview, interviewLine codec envelope action)
  let human := fun (projectId : ProjectId) (text : String) =>
    (projectId, DocumentKind.humanLog, humanLine codec envelope text)
  match envelope.payload with
  | .task (.taskCreated task) => task.projectId.map fun projectId =>
    let title := trim task.title
    if envelope.actor.isAgent then
      interview projectId s!"task_created target={task.id.getD (env.fresh 0)} \"{title}\""
    else human projectId s!"Created task '{title}'"
  | .task (.taskStatusChanged taskId fromStatus toStatus) => do
    let task ← db.tasks.find? taskId
    let projectId ← task.projectId
    if envelope.actor.isAgent then
      some (interview projectId s!"status_changed target={taskId} {fromStatus.debug}->{toStatus.debug}")
    else some (human projectId s!"Task '{trim task.title}' status: {fromStatus.debug} → {toStatus.debug}")
  | .run (.runStarted run) => (projectForPlan db run.planId).map fun projectId =>
    interview projectId s!"run_started target={run.id} plan={run.planId}"
  | .run (.runCompleted runId _) => (projectForRun db runId).map fun projectId =>
    interview projectId s!"run_completed target={runId}"
  | .run (.runAborted runId reason _) => (projectForRun db runId).map fun projectId =>
    interview projectId s!"run_aborted target={runId} reason={reason}"
  | .run (.runNoteAppended runId _ body ..) => (projectForRun db runId).map fun projectId =>
    interview projectId s!"run_note target={runId} {notePreview body}"
  | .plan (.planStatusChanged planId _ .completed) => (db.plans.find? planId).map fun plan =>
    human plan.projectId s!"Plan '{trim plan.title}' completed"
  | .project (.projectUpdated projectId (some title) _) =>
    some (human projectId s!"Project renamed to '{trim title}'")
  | _ => none

def enabled (db : Database) (projectId : ProjectId) (kind : DocumentKind) : Bool :=
  let settings := ProjectSettingsRepo.autoAppend db projectId
  match kind with
  | .interview => settings.interview
  | .humanLog => settings.humanLog

def persistSignalEvent (env : Env) (actor : Actor) (event : Event) : Serving Unit := do
  let db ← get
  let (persisted, appended) ← lift
    (appendBatch db [EventEnvelope.new (env.fresh 0) env.now actor event])
  set appended
  Projections.applyEvents (env.part 1) persisted

/-- The line that an event adds to a log, when the log is kept and there is one:
the oldest document of its kind. -/
def logEntry (config : Config) (env : Env) (db : Database) (envelope : EventEnvelope) : Option Event := do
  let (projectId, kind, line) ← renderLogLine config.text env db envelope
  if enabled db projectId kind then do
    let doc ← (DocumentRepo.listByProject db projectId kind).head?
    some (.document (.documentContentAppended doc.id line envelope.occurredAt))
  else none

/-- The lines of a batch, each in its own append. A failure drops its line. -/
def autoAppendLogs (config : Config) (env : Env) (db : Database) : List EventEnvelope → Database
  | [] => db
  | envelope :: rest =>
    let part := env.part envelope.seq
    let logged := match logEntry config part db envelope with
      | none => db
      | some event => (persistSignalEvent part .anyUser event db).2
    autoAppendLogs config env logged rest

end AutoAppend

/-- Events of one call, not appended yet. -/
def envelopesOf (env : Env) (actor : Actor) (events : List Event) : List EventEnvelope :=
  events.mapIdx fun n event => EventEnvelope.new (env.fresh n) env.now actor event

namespace GateStage

/-- The audit trail of rules that acted on one check. An outcome without a rule
leaves none. -/
def ruleFiredEvents (now : Timestamp) (actor : Actor) (check : GateCheck) (decision : RuleDecision)
    (overrideReason : Option String) (outcomes : List MutationWarning) : List AuditEvent :=
  outcomes.filterMap fun outcome => outcome.rule.map fun rule =>
    .ruleFired rule.1 rule.2 decision check.trigger.asStr actor check.projectId check.planId check.taskId
      outcome.message overrideReason now

private def idValue {kind : IdKind} : Option (Id kind) → JsonValue
  | some id => .string (hyphenated id.uuid)
  | none => .null

def observationMetric (codec : TextCodec) (now : Timestamp) (check : GateCheck)
    (observation : RuleObservation) : AuditEvent :=
  .operationalMetricRecorded {
    ts := now
    eventType := .step
    runId := (check.runId.map toString).getD ""
    nodeId := some (toString observation.ruleId)
    layer := "daruma"
    name := "rule.advisory_evaluated"
    outcome := .ok
    latencyMs := 0
    tokens := none
    retryCount := 0
    errorClass := none
    stuckReason := none
    attrs := .object [
      ("rule_id", idValue (some observation.ruleId)),
      ("rule_key", .string observation.ruleKey),
      ("rule_revision", .string (codec.rfc3339 observation.ruleRevision)),
      ("triggered", .bool observation.triggered),
      ("trigger", .string check.trigger.asStr),
      ("project_id", idValue check.projectId),
      ("plan_id", idValue check.planId),
      ("task_id", idValue check.taskId)] }

/-- What the checks of a batch leave: the audit events that ride ahead of it,
the metrics that follow it, and the warnings of the answer. -/
structure Trail where
  audit : List AuditEvent
  metrics : List AuditEvent
  warnings : List MutationWarning

def Trail.empty : Trail := ⟨[], [], []⟩

inductive Verdict where
  | passed (trail : Trail)
  | refused (audit : List AuditEvent) (error : CoreError)

/-- Decide the checks in order. The first one that blocks ends it. -/
def consult (codec : TextCodec) (gate : LifecycleGate) (db : Database) (env : Env) (actor : Actor)
    (override : GateOverride) : Trail → List GateCheck → Result Verdict
  | trail, [] => .ok (.passed trail)
  | trail, check :: rest =>
    match gate db env actor check override with
    | .error e => .error e
    | .ok (decision, observations) =>
      let metrics := trail.metrics ++ observations.map (observationMetric codec env.now check)
      let fired := ruleFiredEvents env.now actor check
      let next := fun audit warnings => consult codec gate db env actor override
        ⟨trail.audit ++ audit, metrics, trail.warnings ++ warnings⟩ rest
      match decision with
      | .allowed => next [] []
      | .warning warnings => next (fired .warning none warnings) warnings
      | .overridden bypassed warnings reason =>
        next (fired .warning none warnings ++ fired .overridden (some reason) bypassed)
          (warnings ++ bypassed)
      | .blocked message outcomes _ unblock => .ok (.refused (metrics ++ fired .blocked none outcomes)
          (.conflict s!"rule_blocked: {message} | unblock: {codec.renderHints unblock}"))

/-- A refusal stays visible: its audit is appended though the batch is not. -/
def recordRefusal (env : Env) (actor : Actor) (audit : List AuditEvent) : Serving Unit :=
  if audit.isEmpty then pure ()
  else do
    let db ← get
    let (persisted, appended) ← lift
      (appendBatch db (envelopesOf env actor (audit.map .audit)))
    set { appended with activity := persisted.foldl ActivityRepo.applyEvent appended.activity }

/-- Pass a batch through the gate, if there is one. -/
def gated (config : Config) (env : Env) (actor : Actor) (override : GateOverride) (events : List Event) :
    Serving Trail :=
  match config.lifecycleGate with
  | none => pure Trail.empty
  | some gate => do
    let db ← get
    let verdict ← lift (consult config.text gate db env actor override Trail.empty
      (LifecycleGate.deriveGateChecks events))
    match verdict with
    | .passed trail => pure trail
    | .refused audit error => do
      recordRefusal env actor audit
      lift (.error error)

/-- The events of a batch between those of its audit and its metrics. -/
def Trail.surround (trail : Trail) (events : List Event) : List Event :=
  trail.audit.map .audit ++ events ++ trail.metrics.map .audit

end GateStage
end Daruma
