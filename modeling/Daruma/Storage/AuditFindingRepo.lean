import Daruma.Storage.Database

/-! The audit findings of a workspace. A check records what it sees, and resolves what it
no longer sees; an operator sets the status of single findings. The table is the only
record, there are no events behind it. -/
namespace Daruma

structure AuditFindingId where
  uuid : Nat
  deriving DecidableEq

inductive FindingSeverity where
  | error | warn | info
  deriving DecidableEq

inductive FindingStatus where
  | opened | acknowledged | muted | resolved
  deriving DecidableEq

inductive FindingSource where
  | script | ai
  deriving DecidableEq

structure FindingEntity where
  planId : Option PlanId
  taskId : Option TaskId
  documentId : Option DocumentId
  artifactId : Option ArtifactId
  deriving DecidableEq

/-- What a finding is about: the project or the workspace, the check and the entity. The
unique index writes a missing id as the empty text, which is no id. -/
structure FindingKey where
  projectId : Option ProjectId
  checkKey : String
  entity : FindingEntity
  deriving DecidableEq

structure AuditFinding where
  id : AuditFindingId
  projectId : Option ProjectId
  entity : FindingEntity
  checkKey : String
  category : String
  severity : FindingSeverity
  title : String
  detail : String
  remediation : String
  source : FindingSource
  status : FindingStatus
  firstSeenAt : Timestamp
  lastSeenAt : Timestamp
  resolvedBy : Option String
  resolvedAt : Option Timestamp

structure NewFinding where
  projectId : Option ProjectId
  entity : FindingEntity
  checkKey : String
  category : String
  severity : FindingSeverity
  title : String
  detail : String
  remediation : String
  source : FindingSource

def AuditFinding.key (finding : AuditFinding) : FindingKey := ⟨finding.projectId, finding.checkKey, finding.entity⟩

def NewFinding.key (new : NewFinding) : FindingKey := ⟨new.projectId, new.checkKey, new.entity⟩

/-- The table, with its primary key and its unique index. -/
structure AuditFindings where
  rows : List AuditFinding
  ids : (rows.map AuditFinding.id).Nodup
  keys : (rows.map AuditFinding.key).Nodup

/-- An update of columns outside the two keys. -/
structure FindingUpdate where
  write : AuditFinding → AuditFinding
  id : ∀ finding, (write finding).id = finding.id
  key : ∀ finding, (write finding).key = finding.key

namespace AuditFindingRepo

def empty : AuditFindings := ⟨[], List.nodup_nil, List.nodup_nil⟩

/-- `UPDATE … WHERE`: the rows that meet a condition are written. -/
def update (findings : AuditFindings) (condition : AuditFinding → Bool) (change : FindingUpdate) : AuditFindings where
  rows := findings.rows.map fun finding => if condition finding then change.write finding else finding
  ids := by
    have hSame : AuditFinding.id ∘ (fun finding => if condition finding then change.write finding else finding) =
        AuditFinding.id := funext fun finding => by
      dsimp only [Function.comp_apply]
      split
      · exact change.id finding
      · rfl
    rw [List.map_map, hSame]
    exact findings.ids
  keys := by
    have hSame : AuditFinding.key ∘ (fun finding => if condition finding then change.write finding else finding) =
        AuditFinding.key := funext fun finding => by
      dsimp only [Function.comp_apply]
      split
      · exact change.key finding
      · rfl
    rw [List.map_map, hSame]
    exact findings.keys

/-- `INSERT`: refused where an id or a key is taken. -/
def insert (findings : AuditFindings) (finding : AuditFinding) : Result AuditFindings :=
  if hId : finding.id ∈ findings.rows.map AuditFinding.id then
    .error (.storage "UNIQUE constraint failed: audit_findings.id")
  else if hKey : finding.key ∈ findings.rows.map AuditFinding.key then
    .error (.storage "UNIQUE constraint failed: index 'idx_audit_findings_dedup'")
  else .ok {
    rows := findings.rows ++ [finding]
    ids := by
      rw [List.map_append]
      exact findings.ids.append (List.nodup_singleton _) fun id hMem hNew => by
        cases List.mem_singleton.mp hNew
        exact hId hMem
    keys := by
      rw [List.map_append]
      exact findings.keys.append (List.nodup_singleton _) fun key hMem hNew => by
        cases List.mem_singleton.mp hNew
        exact hKey hMem }

/-- What a repeated sighting writes. Only a resolved finding opens again. -/
def seenAgain (new : NewFinding) (now : Timestamp) : FindingUpdate where
  write finding := { finding with
    category := new.category
    severity := new.severity
    title := new.title
    detail := new.detail
    remediation := new.remediation
    source := new.source
    lastSeenAt := now
    status := if finding.status = .resolved then .opened else finding.status
    resolvedBy := if finding.status = .resolved then none else finding.resolvedBy
    resolvedAt := if finding.status = .resolved then none else finding.resolvedAt }
  id _ := rfl
  key _ := rfl

def firstSeen (new : NewFinding) (id : AuditFindingId) (now : Timestamp) : AuditFinding :=
  ⟨id, new.projectId, new.entity, new.checkKey, new.category, new.severity, new.title, new.detail, new.remediation,
    new.source, .opened, now, now, none, none⟩

/-- Record a sighting. It answers with the id of the row. -/
def upsert (findings : AuditFindings) (env : Env) (new : NewFinding) : Result (AuditFindingId × AuditFindings) :=
  match findings.rows.find? fun finding => finding.key = new.key with
  | some existing => .ok (existing.id, update findings (fun finding => finding.id = existing.id) (seenAgain new env.now))
  | none => (insert findings (firstSeen new ⟨env.uuid 0⟩ env.now)).map fun inserted => (⟨env.uuid 0⟩, inserted)

def resolution (status : FindingStatus) (resolvedBy : Option String) (resolvedAt : Option Timestamp) : FindingUpdate where
  write finding := { finding with status := status, resolvedBy := resolvedBy, resolvedAt := resolvedAt }
  id _ := rfl
  key _ := rfl

def resolveMissingIn (findings : AuditFindings) (projectId : Option ProjectId) (checkKey : String)
    (seen : List AuditFindingId) (resolvedBy : ActorRef) (now : Timestamp) : AuditFindings :=
  update findings
    (fun finding => finding.projectId = projectId && finding.checkKey = checkKey && finding.status ≠ .resolved &&
      finding.id ∉ seen)
    (resolution .resolved (some resolvedBy.kind) (some now))

def resolveMissing (findings : AuditFindings) (projectId : ProjectId) (checkKey : String) (seen : List AuditFindingId)
    (resolvedBy : ActorRef) (now : Timestamp) : AuditFindings :=
  resolveMissingIn findings (some projectId) checkKey seen resolvedBy now

def resolveMissingWorkspace (findings : AuditFindings) (checkKey : String) (seen : List AuditFindingId)
    (resolvedBy : ActorRef) (now : Timestamp) : AuditFindings :=
  resolveMissingIn findings none checkKey seen resolvedBy now

/-- The action of an operator. It answers whether the id is known. -/
def setStatus (findings : AuditFindings) (id : AuditFindingId) (status : FindingStatus) (actor : ActorRef)
    (now : Timestamp) : Bool × AuditFindings :=
  (findings.rows.any fun finding => finding.id = id, update findings (fun finding => finding.id = id)
    (if status = .resolved then resolution status (some actor.kind) (some now) else resolution status none none))

/-- The sightings of a check, one after another, and the ids that they answer. -/
def upsertAll (env : Env) : Nat → List NewFinding → AuditFindings → Result (List AuditFindingId × AuditFindings)
  | _, [], findings => .ok ([], findings)
  | n, new :: rest, findings => do
    let (id, sighted) ← upsert findings (env.part n) new
    let (ids, last) ← upsertAll env (n + 1) rest sighted
    pure (id :: ids, last)

/-- A check of a scope: it records what it sees, and resolves the others. -/
def checkRun (env : Env) (projectId : Option ProjectId) (checkKey : String) (reported : List NewFinding)
    (resolvedBy : ActorRef) (findings : AuditFindings) : Result AuditFindings := do
  let (seen, sighted) ← upsertAll env 0 reported findings
  pure (resolveMissingIn sighted projectId checkKey seen resolvedBy env.now)

/-- What checks and operators do to the table, one after another. A check is its sightings,
and then what it resolves; others may come between them. -/
inductive AuditAction where
  | sight (env : Env) (new : NewFinding)
  | resolveMissing (projectId : Option ProjectId) (checkKey : String) (seen : List AuditFindingId) (resolvedBy : ActorRef)
      (now : Timestamp)
  | setStatus (id : AuditFindingId) (status : FindingStatus) (actor : ActorRef) (now : Timestamp)

/-- The table after an action, whatever it answered. -/
def act (findings : AuditFindings) : AuditAction → AuditFindings
  | .sight env new =>
    match upsert findings env new with
    | .ok (_, sighted) => sighted
    | .error _ => findings
  | .resolveMissing projectId checkKey seen resolvedBy now =>
    resolveMissingIn findings projectId checkKey seen resolvedBy now
  | .setStatus id status actor now => (setStatus findings id status actor now).2

def run (actions : List AuditAction) : AuditFindings := actions.foldl act empty

end AuditFindingRepo
end Daruma
