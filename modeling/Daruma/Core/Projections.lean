import Daruma.Core.Config
import Daruma.Storage.ArtifactRepo
import Daruma.Storage.ClaimRepo
import Daruma.Storage.DocumentRepo
import Daruma.Storage.EvidenceRepo
import Daruma.Storage.RuleRepo
import Daruma.Storage.TaskRepo
import Daruma.Storage.WorkUnitRepo

/-! Applying a persisted event to the projections. Each projection writes on its
own: when one refuses an event, those before it have taken it. -/
namespace Daruma

/-- A computation over the whole database. What it wrote before an error stays. -/
abbrev Serving (α : Type) := Stateful Database CoreError α

namespace Projections

def tasks (env : Env) (envelope : EventEnvelope) (db : Database) : Result Database := do
  let tasks ← TaskRepo.applyEvent db.tasks env envelope
  pure { db with tasks := tasks }

/-- The repositories that only read the event. None of them refuses one. -/
def records (envelope : EventEnvelope) (db : Database) : Database :=
  { db with
    projects := ProjectRepo.applyEvent db.projects envelope
    comments := CommentRepo.applyEvent db.comments envelope
    activity := ActivityRepo.applyEvent db.activity envelope }

def documents (envelope : EventEnvelope) (db : Database) : Database :=
  let written := DocumentRepo.applyEvent db.documents envelope
  { db with
    documents := written
    documentVersions := DocumentRepo.recordVersion db.documentVersions db.documents written envelope
    projectSettings := ProjectSettingsRepo.applyEvent db.projectSettings envelope
    workUnits := WorkUnitRepo.applyEvent db.workUnits envelope }

def handoffs (envelope : EventEnvelope) (db : Database) : Result Database := do
  let handoffs ← HandoffRepo.applyEvent db.handoffs envelope
  pure { db with handoffs := handoffs }

def rules (envelope : EventEnvelope) (db : Database) : Result Database := do
  let rules ← RuleRepo.applyEvent db.rules envelope
  pure { db with rules := rules }

/-- The projections of an event, in the order in which they take it. Relations
are not among them: their rows were written while the event was built. -/
def projectors (env : Env) (envelope : EventEnvelope) : List (Database → Result Database) :=
  [tasks env envelope,
    fun db => .ok (records envelope db),
    fun db => .ok (PlanRepo.applyEvent db env envelope),
    fun db => .ok (RunRepo.applyEvent db envelope),
    fun db => RunNoteRepo.applyEvent db envelope,
    fun db => .ok (SessionRepo.applyEvent db envelope),
    fun db => AgentClaimRepo.applyEvent db env.now envelope,
    fun db => .ok (WorkLeaseRepo.applyEvent db envelope),
    fun db => .ok (documents envelope db),
    handoffs envelope,
    rules envelope,
    fun db => .ok (EvidenceRepo.applyEvent db envelope),
    fun db => ArtifactRepo.applyEvent db env envelope]

def batchProjectors (env : Env) (envelopes : List EventEnvelope) : List (Database → Result Database) :=
  envelopes.flatMap fun envelope => projectors (env.part envelope.seq) envelope

/-- A persisted batch, in its order. The first refusal stops it. -/
def applyEvents (env : Env) (envelopes : List EventEnvelope) : Serving Unit :=
  Stateful.inTurn (batchProjectors env envelopes)

end Projections
end Daruma
