import Daruma.Events.Event
import Daruma.Library.KeyedTable
import Mathlib.Data.List.Sort
import Mathlib.Data.Nat.Pairing

/-! The rows of the server's database and the append to its event log. -/
namespace Daruma

open List

/-- A task claim of an agent. A row lives until it is deleted; it is live while
its expiry has not passed. -/
structure AgentClaim where
  agentId : AgentId
  taskId : TaskId
  acquiredAt : Timestamp
  expiresAt : Timestamp
  runId : Option RunId
  claimId : ClaimId
  deriving DecidableEq

def AgentClaim.key (claim : AgentClaim) : AgentId × TaskId := (claim.agentId, claim.taskId)

structure RunClaimOwner where
  runId : RunId
  agentId : AgentId
  deriving DecidableEq

/-- The last fencing token issued for a resource. -/
structure LeaseFencing where
  resourceKey : String
  seq : Int
  deriving DecidableEq

/-- A foreign identity of an entity of the server. -/
structure ExternalRef where
  tenant : String
  kind : String
  externalId : String
  internalId : String
  createdAt : Timestamp
  deriving DecidableEq

def ExternalRef.key (ref : ExternalRef) : String × String × String :=
  (ref.tenant, ref.kind, ref.externalId)

/-- A project's settings. The source keeps one row for each of the three keys;
an absent `autoAppend` reads as the defaults. -/
structure ProjectSettings where
  projectId : ProjectId
  autoAppend : Option AutoAppendSettings
  intakeSource : Option IntakeSourcePolicy
  audit : Option JsonValue

/-- What the activity feed of a task says of an event. -/
inductive ActivityText where
  | plain (text : String)
  | patch (patch : TaskPatch)
  | record

/-- A row of the activity feed of a task. -/
structure Activity where
  taskId : TaskId
  field : Option String
  oldValue : Option String
  newValue : Option ActivityText
  occurredAt : Timestamp
  seq : Nat

structure Database where
  events : KeyedTable EventId EventEnvelope EventEnvelope.id
  latestSeq : Nat
  tasks : KeyedTable TaskId Task Task.id
  relations : KeyedTable RelationId Relation Relation.id
  comments : KeyedTable CommentId Comment Comment.id
  activity : List Activity
  projects : KeyedTable ProjectId Project Project.id
  projectSettings : KeyedTable ProjectId ProjectSettings ProjectSettings.projectId
  plans : KeyedTable PlanId Plan Plan.id
  planTasks : KeyedTable (PlanId × TaskId) PlanTask PlanTask.key
  sources : KeyedTable String SourceNode SourceNode.sourceRef
  externalRefs : KeyedTable (String × String × String) ExternalRef ExternalRef.key
  runs : KeyedTable RunId Run Run.id
  runSteps : List RunStep
  runNotes : KeyedTable RunNoteId RunNote RunNote.id
  agentSessions : KeyedTable AgentSessionId AgentSession AgentSession.id
  sessionArtifacts : KeyedTable SessionArtifactId SessionArtifact SessionArtifact.id
  agentClaims : KeyedTable (AgentId × TaskId) AgentClaim AgentClaim.key
  runClaimOwners : KeyedTable RunId RunClaimOwner RunClaimOwner.runId
  workLeases : KeyedTable WorkLeaseId WorkLease WorkLease.id
  leaseFencing : KeyedTable String LeaseFencing LeaseFencing.resourceKey
  workUnits : KeyedTable WorkUnitId WorkUnit WorkUnit.id
  handoffs : KeyedTable HandoffId HandoffContract HandoffContract.id
  documents : KeyedTable DocumentId Document Document.id
  documentVersions : List DocumentId
  rules : KeyedTable RuleId Rule Rule.id
  evidence : KeyedTable EvidenceId Evidence Evidence.id
  artifacts : KeyedTable ArtifactId Artifact Artifact.id
  artifactRelations : KeyedTable ArtifactRelationId ArtifactRelation ArtifactRelation.id

/-- A migrated database without rows. -/
def Database.empty : Database :=
  ⟨.empty, 0, .empty, .empty, .empty, [], .empty, .empty, .empty, .empty, .empty, .empty, .empty, [],
    .empty, .empty, .empty, .empty, .empty, .empty, .empty, .empty, .empty, .empty, [], .empty, .empty,
    .empty, .empty⟩

/-- What one call takes from outside: the instant it reads and the UUIDs it mints. -/
structure Env where
  now : Timestamp
  uuid : Nat → Nat

/-- The `n`-th identifier that a call mints. -/
def Env.fresh (env : Env) {kind : IdKind} (n : Nat) : Id kind := ⟨env.uuid n⟩

/-- What the `k`-th part of a call takes from outside. The parts mint from
sequences of their own. -/
def Env.part (env : Env) (k : Nat) : Env := ⟨env.now, fun n => env.uuid (Nat.pair k n)⟩

/-- `ORDER BY` a column. Rows with equal values keep the order of the table. -/
def orderBy {Row Column : Type} [LE Column] [DecidableLE Column] (column : Row → Column)
    (rows : List Row) : List Row :=
  rows.insertionSort fun a b => column a ≤ column b

@[simp] theorem mem_orderBy {Row Column : Type} [LE Column] [DecidableLE Column]
    {column : Row → Column} {rows : List Row} {row : Row} : row ∈ orderBy column rows ↔ row ∈ rows :=
  (perm_insertionSort _ rows).mem_iff

private def originTaken (db : Database) (envelope : EventEnvelope) : Bool :=
  envelope.originDeviceId.isSome && db.events.rows.any fun stored =>
    stored.originDeviceId = envelope.originDeviceId && stored.originSeq = envelope.originSeq

/-- Insert an event under the next sequence number. The ids of the log, and the
origins of the events that have one, are unique. -/
def appendOn (db : Database) (envelope : EventEnvelope) : Result (EventEnvelope × Database) :=
  if originTaken db envelope then
    .error (.storage "UNIQUE constraint failed: events.origin_device_id, events.origin_seq")
  else if h : db.events.find? envelope.id = none then
    let stored := { envelope with seq := db.latestSeq + 1 }
    .ok (stored, { db with events := db.events.append stored h, latestSeq := db.latestSeq + 1 })
  else .error (.storage "UNIQUE constraint failed: events.event_id")

def appendBatch (db : Database) : List EventEnvelope → Result (List EventEnvelope × Database)
  | [] => .ok ([], db)
  | envelope :: rest =>
    match appendOn db envelope with
    | .error e => .error e
    | .ok (stored, db') =>
      match appendBatch db' rest with
      | .error e => .error e
      | .ok (later, db'') => .ok (stored :: later, db'')

/-- The log columns of a database replaced, every projection kept. -/
def Database.SameTables (before after : Database) : Prop :=
  ∃ events latestSeq, after = { before with events := events, latestSeq := latestSeq }

theorem Database.SameTables.refl (db : Database) : db.SameTables db := ⟨_, _, rfl⟩

theorem Database.SameTables.trans {first second third : Database} (h : first.SameTables second)
    (h' : second.SameTables third) : first.SameTables third := by
  obtain ⟨events, latestSeq, rfl⟩ := h
  obtain ⟨events', latestSeq', rfl⟩ := h'
  exact ⟨events', latestSeq', rfl⟩

variable {db db' : Database} {envelope : EventEnvelope} {envelopes : List EventEnvelope}

theorem appendOn_ok {stored : EventEnvelope} (h : appendOn db envelope = .ok (stored, db')) :
    stored = { envelope with seq := db.latestSeq + 1 } ∧ db.events.find? envelope.id = none ∧
      db'.events.rows = db.events.rows ++ [stored] ∧ db'.latestSeq = db.latestSeq + 1 ∧
      db.SameTables db' := by
  unfold appendOn at h
  split at h
  · cases h
  · split at h
    · rename_i hFresh
      simp only [Except.ok.injEq, Prod.mk.injEq] at h
      obtain ⟨rfl, rfl⟩ := h
      exact ⟨rfl, hFresh, rfl, rfl, _, _, rfl⟩
    · cases h

theorem appendBatch_ok {stored : List EventEnvelope} (h : appendBatch db envelopes = .ok (stored, db')) :
    stored.map EventEnvelope.payload = envelopes.map EventEnvelope.payload ∧
      db'.events.rows = db.events.rows ++ stored ∧ db.SameTables db' := by
  induction envelopes generalizing db stored with
  | nil =>
    simp only [appendBatch, Except.ok.injEq, Prod.mk.injEq] at h
    obtain ⟨rfl, rfl⟩ := h
    exact ⟨rfl, (append_nil _).symm, .refl _⟩
  | cons envelope rest ih =>
    unfold appendBatch at h
    split at h
    · cases h
    · rename_i first middle hFirst
      split at h
      · cases h
      · rename_i later last hRest
        simp only [Except.ok.injEq, Prod.mk.injEq] at h
        obtain ⟨rfl, rfl⟩ := h
        obtain ⟨hStored, _, hRows, _, hSame⟩ := appendOn_ok hFirst
        obtain ⟨hPayloads, hRows', hSame'⟩ := ih hRest
        refine ⟨by simp [hStored, hPayloads], ?_, hSame.trans hSame'⟩
        rw [hRows', hRows, append_assoc]
        rfl

theorem appendOn_new (hOrigin : envelope.originDeviceId = none)
    (hNew : db.events.find? envelope.id = none) : ∃ stored db', appendOn db envelope = .ok (stored, db') := by
  have hFree : originTaken db envelope = false := by rw [originTaken, hOrigin]; rfl
  unfold appendOn
  rw [if_neg (by rw [hFree]; exact Bool.false_ne_true), dif_pos hNew]
  exact ⟨_, _, rfl⟩

theorem appendBatch_new (hOrigin : ∀ envelope ∈ envelopes, envelope.originDeviceId = none)
    (hNew : ∀ envelope ∈ envelopes, db.events.find? envelope.id = none)
    (hDistinct : (envelopes.map EventEnvelope.id).Nodup) : ∃ stored db', appendBatch db envelopes = .ok (stored, db') := by
  induction envelopes generalizing db with
  | nil => exact ⟨[], db, rfl⟩
  | cons envelope rest ih =>
    obtain ⟨hFirstOrigin, hRestOrigin⟩ := forall_mem_cons.mp hOrigin
    obtain ⟨hFirstNew, hRestNew⟩ := forall_mem_cons.mp hNew
    obtain ⟨hOther, hRestDistinct⟩ := nodup_cons.mp hDistinct
    obtain ⟨stored, db', hFirst⟩ := appendOn_new hFirstOrigin hFirstNew
    obtain ⟨hStored, _, hRows, _, _⟩ := appendOn_ok hFirst
    have hStillNew : ∀ later ∈ rest, db'.events.find? later.id = none := by
      intro later hMem
      refine KeyedTable.find?_eq_none_iff.mpr fun row hRow => ?_
      have hRow' : row ∈ db.events.rows ++ [stored] := hRows ▸ hRow
      rcases mem_append.mp hRow' with hOld | hIs
      · exact KeyedTable.find?_eq_none_iff.mp (hRestNew later hMem) row hOld
      · rw [mem_singleton.mp hIs, hStored]
        exact fun hSame => hOther (mem_map.mpr ⟨later, hMem, hSame.symm⟩)
    obtain ⟨storedRest, last, hRest⟩ := ih hRestOrigin hStillNew hRestDistinct
    refine ⟨stored :: storedRest, last, ?_⟩
    rw [appendBatch, hFirst]
    dsimp only
    rw [hRest]

end Daruma
