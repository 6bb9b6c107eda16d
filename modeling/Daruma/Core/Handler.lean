import Daruma.Core.HandlerStages
import Daruma.Core.Reconciliation

/-! The command handler: a command is decided into a batch of events, the batch
passes the gate, is appended to the log and projected. -/
namespace Daruma

open Outcome
open Stateful (lift get set)

/-- The token identity behind a call, if it has one, and its administrator right. -/
structure Caller where
  agentId : Option AgentId
  isAdmin : Bool

/-- A call from inside the server. -/
def Caller.internal : Caller := ⟨none, false⟩

structure DispatchOutcome where
  events : List EventEnvelope
  warnings : List MutationWarning

namespace Handler

/-- Evidence names the authenticated principal, whatever its actor claims. -/
def attributedActor (caller : Caller) (command : Command) (actor : Actor) : Actor :=
  match command, caller.agentId, actor with
  | .evidence _, some id, .agent _ name client => .agent id name client
  | .evidence _, some id, .user _ name client => .user (some id) name client
  | _, _, actor => actor

def runOwner (db : Database) (runId : RunId) : Option AgentId :=
  (db.runClaimOwners.find? runId).map RunClaimOwner.agentId

def isCompletedRunRetry (db : Database) (caller : Caller) (command : Command) : Bool :=
  match command, caller.agentId with
  | .run (.completeRun runId), some agentId =>
    ((db.runs.find? runId).any fun run => run.status = .completed) && runOwner db runId = some agentId
  | _, _ => false

def ensureRunCompletionOwner (db : Database) (caller : Caller) (command : Command) : Result Unit :=
  match command, caller.agentId with
  | .run (.completeRun runId), some agentId =>
    if !((db.runs.find? runId).any fun run => run.status = .active) || caller.isAdmin then .ok ()
    else match runOwner db runId with
      | some owner =>
        if owner = agentId then .ok () else .error (.forbidden "run is owned by another agent")
      | none => .error (.forbidden "run has no authenticated owner")
  | _, _ => .ok ()

structure Sourced where
  command : Command
  events : List PlanEvent
  warnings : List MutationWarning

def resolveSource (config : Config) (db : Database) (env : Env) (actor : Actor) :
    Command → Result Sourced
  | .plan (.materializePlan plan tasks none) => do
    let (plan, events, warnings) ← PlanSource.resolvePlanSource config.text db (env.part 0) plan actor
    if plan.separate then pure () else PlanSource.requirePlanChoice db (env.part 1) plan events
    pure ⟨.plan (.materializePlan plan tasks none), events,
      warnings ++ PlanSource.planLooksRaw config.text plan tasks⟩
  | .plan (.createPlan plan none) => do
    let (plan, events, warnings) ← PlanSource.resolvePlanSource config.text db (env.part 0) plan actor
    pure ⟨.plan (.createPlan plan none), events, warnings⟩
  | .plan (.createPlan plan (some ref)) => do
    let (plan, nodes) ← PlanSource.preparePlanSource config.text (env.part 0) plan actor
    let (events, warnings) ← PlanSource.planSourceEvents config.text db (env.part 1) plan nodes actor
    pure ⟨.plan (.createPlan plan (some ref)), events, warnings⟩
  | .plan (.extendSource planId sourceRef source upstream) => do
    let (events, warnings) ←
      PlanSource.extendSource config.text db (env.part 0) planId sourceRef source upstream actor
    pure ⟨.plan (.extendSource planId sourceRef source upstream), events, warnings⟩
  | command => pure ⟨command, [], []⟩

def isPlanCreated : Event → Bool
  | .plan (.planCreated _) => true
  | _ => false

def isExtending : Command → Bool
  | .plan (.extendSource ..) => true
  | _ => false

/-- A creation that repeats a known one links no source. -/
def withSource (sourced : Sourced) (events : List Event) : List Event :=
  if isExtending sourced.command || events.any isPlanCreated then sourced.events.map .plan ++ events
  else events

def authenticated (caller : Caller) : Event → Event
  | .evidence (.evidenceRecorded evidence) =>
    .evidence (.evidenceRecorded { evidence with authenticatedActorId := caller.agentId })
  | event => event

/-- The batch of a command, with the plans that it closes. -/
def draft (config : Config) (db : Database) (env : Env) (caller : Caller) (actor : Actor)
    (command : Command) : Building (List Event × List MutationWarning) := do
  let sourced ← lift (resolveSource config db (env.part 0) actor command)
  let built ← buildEvents config db (env.part 1) actor sourced.command
  let events := (withSource sourced built).map (authenticated caller)
  pure (events ++ (Reconciliation.planReconciliations db events).map .plan, sourced.warnings)

/-- Run a builder on the relations of the database. -/
def building {α : Type} (builder : Building α) : Serving α := fun db =>
  let built := builder db.relations
  (built.1, { db with relations := built.2 })

def firstId (wanted : Event → Bool) (envelopes : List EventEnvelope) : Option EventId :=
  (envelopes.find? fun envelope => wanted envelope.payload).map EventEnvelope.id

/-- Name the origin of every task that a batch creates. -/
def relink (origin : EventId) (envelope : EventEnvelope) : EventEnvelope :=
  match envelope.payload with
  | .task (.taskCreated task) =>
    { envelope with payload := .task (.taskCreated { task with sourceEventId := some origin }) }
  | _ => envelope

def relinkTo (origin : Option EventId) (envelopes : List EventEnvelope) : List EventEnvelope :=
  match origin with
  | some origin => envelopes.map (relink origin)
  | none => envelopes

/-- The tasks of a plan come from the event that created it. An append to a plan
has none: they come from its reopening, or from its first new member. -/
def materialisedOrigin (envelopes : List EventEnvelope) : Option EventId :=
  (firstId isPlanCreated envelopes).or <|
    (firstId (fun | .plan (.planStatusChanged ..) => true | _ => false) envelopes).or <|
      firstId (fun | .plan (.planTaskAdded ..) => true | _ => false) envelopes

def splitOrigin : List EventEnvelope → Option EventId :=
  firstId fun | .task (.taskSplitGenerated ..) => true | _ => false

def withProvenance (command : Command) (envelopes : List EventEnvelope) : List EventEnvelope :=
  match command with
  | .plan (.materializePlan ..) => relinkTo (materialisedOrigin envelopes) envelopes
  | .task (.splitTask ..) => relinkTo (splitOrigin envelopes) envelopes
  | _ => envelopes

def isTaskLifecycle : Event → Bool
  | .task (.taskClosed ..) | .task (.taskReopened ..) | .task (.taskDeleted _) => true
  | _ => false

def endsPlan : Command → Bool
  | .plan (.archivePlan _) | .plan (.deletePlan _) => true
  | .plan (.setPlanStatus _ status _ _) => status = .completed || status = .abandoned
  | _ => false

/-- Append a batch, in one transaction with the claims and runs that it ends. -/
def persist (db : Database) (env : Env) (caller : Caller) (actor : Actor) (command : Command)
    (envelopes : List EventEnvelope) : Result (List EventEnvelope × Database) :=
  match caller.agentId, command with
  | some agentId, .run (.startRun ..) => AgentClaimRepo.recordRunStarted db agentId envelopes
  | some agentId, .run (.failRun ..) | some agentId, .run (.abortRun ..) =>
    AgentClaimRepo.recordRunTerminal db env actor agentId caller.isAdmin envelopes
  | agentId, command =>
    if envelopes.any fun envelope => isTaskLifecycle envelope.payload then
      AgentClaimRepo.recordTaskLifecycle db env actor envelopes
    else if endsPlan command then
      AgentClaimRepo.recordPlanTerminal db env actor agentId caller.isAdmin envelopes
    else appendBatch db envelopes

def commit (env : Env) (caller : Caller) (actor : Actor) (command : Command)
    (envelopes : List EventEnvelope) : Serving (List EventEnvelope) := do
  let db ← get
  let (persisted, appended) ← lift (persist db env caller actor command envelopes)
  set appended
  pure persisted

/-- Validate a command, persist its batch and project it. -/
def handleWithRunOwner (config : Config) (env : Env) (caller : Caller) (command : Command) (claimed : Actor) :
    Serving DispatchOutcome := do
  let actor := attributedActor caller command claimed
  let db ← get
  if isCompletedRunRetry db caller command then pure ⟨[], []⟩
  else do
    lift (ensureRunCompletionOwner db caller command)
    let (events, warnings) ← building (draft config db (env.part 0) caller actor command)
    if events.isEmpty then pure ⟨[], []⟩
    else do
      let trail ← GateStage.gated config (env.part 1) actor (gateOverrideOf command) events
      let envelopes := envelopesOf (env.part 2) actor (trail.surround events)
      let persisted ← commit (env.part 3) caller actor command (withProvenance command envelopes)
      Projections.applyEvents (env.part 4) persisted
      let applied ← get
      set (AutoAppend.autoAppendLogs config (env.part 5) applied persisted)
      pure ⟨persisted, warnings ++ trail.warnings⟩

end Handler
end Daruma
