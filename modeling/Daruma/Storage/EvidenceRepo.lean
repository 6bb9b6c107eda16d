import Daruma.Storage.Database
import Mathlib.Algebra.Ring.Nat

/-! The projection of evidence, and the search for live evidence along a scope
chain. -/
namespace Daruma

/-- Whether live evidence was found, or else why the candidates were rejected. -/
structure EvidenceCheck where
  satisfied : Bool
  reason : Option String

/-- How the `doc_version` of a candidate is judged. -/
inductive VersionRule where
  | any
  | atLeast (minimum : Nat)
  | latest (current : Nat)

namespace EvidenceRepo

def get (db : Database) (id : EvidenceId) : Option Evidence := db.evidence.find? id

def scopeRank : RuleScope → Nat
  | .tenant => 0
  | .project _ => 1
  | .plan _ => 2
  | .task _ => 3

/-- The part of a chain, outermost scope first, that a kind may be read from.
Without a scope at the kind's ceiling it is the innermost one. -/
def reachable (chain : List RuleScope) (reach : EvidenceReach) : List RuleScope :=
  let innermost := chain.drop (chain.length - 1)
  let capped := fun ceiling =>
    match chain.findIdx? fun scope => ceiling ≤ scopeRank scope with
    | some cut => chain.drop cut
    | none => innermost
  match reach with
  | .tenant => capped 0
  | .project => capped 1
  | .plan => capped 2
  | .selfOnly => innermost

/-- `str::parse::<u64>` after an optional `v`. A leading `+` is accepted. -/
def parseVersion (version : String) : Option Nat :=
  let digits := match version.toList with
    | 'v' :: rest | 'V' :: rest => rest
    | chars => chars
  let digits := match digits with
    | '+' :: rest => rest
    | chars => chars
  if digits.isEmpty || !digits.all Char.isDigit then none
  else
    let value := digits.foldl (fun n c => 10 * n + (c.toNat - '0'.toNat)) 0
    if value < 2 ^ 64 then some value else none

def currentDocumentVersion (db : Database) (docRef : String) : Option Nat :=
  let entityId := if (stripPrefix "doc_" docRef).isSome then docRef else "doc_" ++ docRef
  let recorded := db.documentVersions.countP fun id => toString id = entityId
  if recorded = 0 then none else some recorded

/-- The live evidence of one kind at one scope, newest first, up to twenty. -/
def candidates (db : Database) (scope : RuleScope) (kind : EvidenceKind) (target : Option String)
    (rule : VersionRule) : List Evidence :=
  let named := fun evidence : Evidence =>
    match target, rule with
    | some t, .latest _ => evidence.target = some t
    | some t, _ => evidence.target = some t || evidence.target = none
    | none, _ => true
  let live := db.evidence.rows.filter fun evidence =>
    evidence.scope = scope && evidence.kind = kind && evidence.supersededBy = none && named evidence
  (live.insertionSort fun a b =>
    b.recordedAt < a.recordedAt ∨ (b.recordedAt = a.recordedAt ∧ b.id.uuid ≤ a.id.uuid)).take 20

def nonEmpty (value : Option String) : Bool :=
  value.any fun text => text ≠ ""

/-- A required field is missing or empty. A key absent from the payload falls
back to the column of its name. -/
def fieldMissing (evidence : Evidence) (field : String) : Bool :=
  match evidence.payload.get? field with
  | some .null => true
  | some (.string text) => text = ""
  | some _ => false
  | none =>
    if field = "reason" then evidence.reason = ""
    else if field = "actor" then evidence.actor.id.isNone && !nonEmpty evidence.actor.name
    else if field = "doc_version" then !nonEmpty evidence.docVersion
    else if field = "target" then evidence.target.isNone
    else true

/-- Why a candidate does not count, if it does not. -/
def rejection (requiredFields : List String) (rule : VersionRule) (evidence : Evidence) : Option String :=
  match requiredFields.find? (fieldMissing evidence) with
  | some field => some s!"evidence payload field `{field}` is missing or empty"
  | none =>
    let version := evidence.docVersion.bind parseVersion
    match rule, version with
    | .any, _ => none
    | .atLeast minimum, none => some
        s!"evidence doc_version is missing or invalid; expected an integer >= {minimum} with optional v/V prefix"
    | .atLeast minimum, some actual =>
      if actual < minimum then some s!"evidence doc_version {actual} is older than required {minimum}"
      else none
    | .latest current, actual =>
      if actual = some current then none
      else
        let given := evidence.docVersion.getD "<missing>"
        some (s!"evidence doc_version {given} is not the current document version {current} required by min_version=latest; " ++
          s!"re-read the document and record a new document_read_ack with doc_version {current}")

/-- The first rejection of a list of candidates, unless one of them counts. -/
def judge (reject : Evidence → Option String) : List Evidence → EvidenceCheck
  | [] => ⟨false, none⟩
  | evidence :: rest =>
    match reject evidence with
    | none => ⟨true, none⟩
    | some reason =>
      let later := judge reject rest
      if later.satisfied then later else ⟨false, some reason⟩

/-- The first scope of a chain with evidence that counts, or the first reason. -/
def judgeScopes (check : RuleScope → EvidenceCheck) : List RuleScope → EvidenceCheck
  | [] => ⟨false, none⟩
  | scope :: inner =>
    let found := check scope
    if found.satisfied then found
    else
      let later := judgeScopes check inner
      if later.satisfied then later else ⟨false, found.reason.or later.reason⟩

def hasLiveEvidence (db : Database) (chain : List RuleScope) (kind : EvidenceKind)
    (target : Option String) (requiredFields : List String) (minVersion : Option String) : EvidenceCheck :=
  let versionRule : Except String VersionRule :=
    match minVersion with
    | none => .ok .any
    | some version =>
      if version = "latest" then
        match target.bind (currentDocumentVersion db) with
        | some current => .ok (.latest current)
        | none => .ok .any
      else match parseVersion version with
        | some minimum => .ok (.atLeast minimum)
        | none => .error
            s!"rule min_version `{version}` is invalid; expected an integer with optional v/V prefix"
  match versionRule with
  | .error reason => ⟨false, some reason⟩
  | .ok rule =>
    let check := judgeScopes
      (fun scope => judge (rejection requiredFields rule) (candidates db scope kind target rule))
      (reachable chain kind.reach)
    if check.satisfied then check
    else match check.reason, rule, target with
      | none, .latest current, some docRef => ⟨false, some
          s!"requires a document_read_ack targeting `{docRef}` with doc_version {current} (current document version, min_version=latest)"⟩
      | reason, _, _ => ⟨false, reason⟩

/-- A passing test attestation for the revision by an authenticated actor other
than the executor. -/
def hasIndependentTestVerification (db : Database) (taskId : TaskId) (executorId : AgentId)
    (sourceRevision : String) : Bool :=
  db.evidence.rows.any fun evidence =>
    let passed := match evidence.payload.get? "passed" with
      | some (.bool true) => true
      | _ => false
    evidence.scope = .task taskId && evidence.kind = .artifactCreated &&
      evidence.target = some ("test-verification:" ++ sourceRevision) && evidence.supersededBy = none &&
      evidence.authenticatedActorId.isSome && evidence.authenticatedActorId = evidence.actor.id &&
      evidence.actor.id ≠ some executorId && passed

def taskHasLiveDocument (db : Database) (taskId : TaskId) : Bool :=
  db.documents.rows.any fun doc =>
    doc.taskId = some taskId && doc.status ≠ .archived && doc.archivedAt.isNone

/-- Evidence is immutable: a row of the same id stays as it is. -/
def applyEvent (db : Database) (envelope : EventEnvelope) : Database :=
  match envelope.payload with
  | .evidence (.evidenceRecorded evidence) =>
    if db.evidence.contains evidence.id then db
    else { db with evidence := db.evidence.upsert evidence }
  | .evidence (.evidenceSuperseded evidenceId supersededBy _) =>
    { db with evidence := db.evidence.modify evidenceId fun evidence =>
        { evidence with supersededBy := some supersededBy } }
  | _ => db

theorem applyEvent_frame (db : Database) (envelope : EventEnvelope) :
    ∃ evidence, applyEvent db envelope = { db with evidence := evidence } := by
  unfold applyEvent
  split
  · split
    · exact ⟨_, rfl⟩
    · exact ⟨_, rfl⟩
  · exact ⟨_, rfl⟩
  · exact ⟨_, rfl⟩

end EvidenceRepo
end Daruma
