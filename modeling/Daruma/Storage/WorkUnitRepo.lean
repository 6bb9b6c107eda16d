import Daruma.Storage.Database

/-! The projections of work units and of the handoffs between them, and the claim
of a unit that an agent drains. -/
namespace Daruma
namespace WorkUnitRepo

abbrev WorkUnits := KeyedTable WorkUnitId WorkUnit WorkUnit.id

def get (db : Database) (id : WorkUnitId) : Option WorkUnit := db.workUnits.find? id

/-- Set columns of a unit, and its `updated_at`. -/
def updateFields (workUnits : WorkUnits) (id : WorkUnitId) (instant : Timestamp)
    (f : WorkUnit → WorkUnit) : WorkUnits :=
  workUnits.modify id fun unit => { f unit with updatedAt := instant }

def applyWorkUnitEvent (workUnits : WorkUnits) (instant : Timestamp) : WorkUnitEvent → WorkUnits
  | .workUnitCreated workUnit => workUnits.insertOrReplace workUnit
  | .workUnitClaimed workUnitId agentId expiresAt => updateFields workUnits workUnitId instant fun unit =>
    { unit with ownerAgentId := some agentId, claimExpiresAt := some expiresAt, status := .inProgress }
  | .workUnitStarted workUnitId _ => updateFields workUnits workUnitId instant fun unit =>
    { unit with status := .inProgress }
  | .workUnitBlocked workUnitId _ _ => updateFields workUnits workUnitId instant fun unit =>
    { unit with status := .blocked }
  | .workUnitCompleted workUnitId .. => updateFields workUnits workUnitId instant fun unit =>
    { unit with status := .done, ownerAgentId := none, claimExpiresAt := none }
  | .workUnitReleased workUnitId _ => updateFields workUnits workUnitId instant fun unit =>
    { unit with
      ownerAgentId := none
      claimExpiresAt := none
      status := if unit.status = .inProgress then .ready else unit.status }

def applyEvent (workUnits : WorkUnits) (envelope : EventEnvelope) : WorkUnits :=
  match envelope.payload with
  | .workUnit event => applyWorkUnitEvent workUnits envelope.occurredAt event
  | _ => workUnits

def dispatchable (db : Database) (taskId : TaskId) (agentId : AgentId) (now : Timestamp) (unit : WorkUnit) : Bool :=
  unit.taskId = taskId && (unit.status = .todo || unit.status = .ready) &&
    (unit.ownerAgentId = none || unit.ownerAgentId = some agentId || unit.claimExpiresAt.all fun expiresAt =>
      expiresAt < now) &&
    !(db.handoffs.rows.any fun contract => contract.toWorkUnitId = unit.id && contract.status ≠ .accepted)

def preferred (fit : WorkUnit → Int) : List WorkUnit → Option WorkUnit
  | [] => none
  | unit :: rest =>
    match preferred fit rest with
    | none => some unit
    | some other =>
      if fit unit < fit other || (fit unit = fit other && other.createdAt < unit.createdAt) then some other
      else some unit

/-- Claim the next dispatchable unit of a task. The capability profiles score how
well a unit fits an agent; only the order of the scores counts. -/
def tryClaimNext (fit : AgentId → Timestamp → WorkUnit → Int) (db : Database) (now : Timestamp) (taskId : TaskId)
    (agentId : AgentId) (ttl : Duration) : Option WorkUnit × Database :=
  match preferred (fit agentId now) (db.workUnits.rows.filter (dispatchable db taskId agentId now)) with
  | none => (none, db)
  | some unit =>
    let claimed := updateFields db.workUnits unit.id now fun unit =>
      { unit with ownerAgentId := some agentId, claimExpiresAt := some (now + ttl), status := .inProgress }
    (claimed.find? unit.id, { db with workUnits := claimed })

def revertClaim (workUnits : WorkUnits) (now : Timestamp) (id : WorkUnitId) (agentId : AgentId) : WorkUnits :=
  workUnits.modify id fun unit =>
    if unit.ownerAgentId = some agentId then
      { unit with ownerAgentId := none, claimExpiresAt := none, status := .ready, updatedAt := now }
    else unit

end WorkUnitRepo

namespace HandoffRepo

abbrev Handoffs := KeyedTable HandoffId HandoffContract HandoffContract.id

def get (db : Database) (id : HandoffId) : Option HandoffContract := db.handoffs.find? id

/-- A pair of units has one contract; a repeated request rewrites the columns
other than the endpoints and the creation time. -/
def upsert (handoffs : Handoffs) (handoff : HandoffContract) : Result Handoffs :=
  match handoffs.find? handoff.id with
  | some old => .ok (handoffs.replace { handoff with
      fromWorkUnitId := old.fromWorkUnitId
      toWorkUnitId := old.toWorkUnitId
      createdAt := old.createdAt })
  | none =>
    if handoffs.rows.any fun other => other.fromWorkUnitId = handoff.fromWorkUnitId &&
        other.toWorkUnitId = handoff.toWorkUnitId then
      .error (.storage
        "UNIQUE constraint failed: handoff_contracts.from_work_unit_id, handoff_contracts.to_work_unit_id")
    else .ok (handoffs.upsert handoff)

def applyEvent (handoffs : Handoffs) (envelope : EventEnvelope) : Result Handoffs :=
  match envelope.payload with
  | .handoff (.handoffRequested handoff) => upsert handoffs handoff
  | .handoff (.handoffAccepted handoffId actor notes _ instant) =>
    .ok (handoffs.modify handoffId fun handoff => { handoff with
      status := .accepted, acceptedByAgentId := actor, notes := notes, requiredChanges := [],
      updatedAt := instant })
  | .handoff (.handoffRejected handoffId reason requiredChanges _ instant) =>
    .ok (handoffs.modify handoffId fun handoff => { handoff with
      status := .rejected, notes := some reason, requiredChanges := requiredChanges,
      updatedAt := instant })
  | _ => .ok handoffs

end HandoffRepo
end Daruma
