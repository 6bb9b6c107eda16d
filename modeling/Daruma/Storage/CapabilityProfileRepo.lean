import Daruma.Storage.Database

/-! The capability profiles: what the events of a unit say about the agent that
owns it. How a signal moves a score is a parameter. -/
namespace Daruma

/-- What an event of a unit says about its owner. -/
inductive CapabilitySignal where
  | completed | released | blocked
  deriving DecidableEq

namespace CapabilityProfileRepo

def signalOf : WorkUnitEvent → Option (WorkUnitId × CapabilitySignal)
  | .workUnitCompleted workUnitId .. => some (workUnitId, .completed)
  | .workUnitReleased workUnitId _ => some (workUnitId, .released)
  | .workUnitBlocked workUnitId .. => some (workUnitId, .blocked)
  | _ => none

def unitOwnerAndTags (db : Database) (id : WorkUnitId) : Option (AgentId × List String) := do
  let unit ← db.workUnits.find? id
  let owner ← unit.ownerAgentId
  if unit.capabilityTags.isEmpty then none else some (owner, unit.capabilityTags)

def signals (db : Database) (envelope : EventEnvelope) : List (AgentId × String × CapabilitySignal) :=
  match envelope.payload with
  | .workUnit event =>
    match signalOf event with
    | none => []
    | some (id, signal) =>
      match unitOwnerAndTags db id with
      | none => []
      | some (owner, tags) => tags.map fun capability => (owner, capability, signal)
  | _ => []

/-- Fold the signals of an event into the profiles. The owner is read before the
projection of work units clears it. -/
def applyEvent {Profiles : Type} (foldSignal : Profiles → AgentId → String → CapabilitySignal → Timestamp → Profiles)
    (db : Database) (profiles : Profiles) (envelope : EventEnvelope) : Profiles :=
  (signals db envelope).foldl
    (fun profiles (owner, capability, signal) => foldSignal profiles owner capability signal envelope.occurredAt) profiles

end CapabilityProfileRepo
end Daruma
