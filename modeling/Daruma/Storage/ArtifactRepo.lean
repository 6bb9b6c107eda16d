import Daruma.Storage.WorkLeaseRepo

/-! The projection of artifacts and their relations. -/
namespace Daruma
namespace ArtifactRepo

def get (db : Database) (id : ArtifactId) : Option Artifact := db.artifacts.find? id

def getByUri (db : Database) (uri : String) : Option Artifact :=
  db.artifacts.rows.find? fun artifact => artifact.uri = uri

def nextRoleGeneration (db : Database) (taskId : TaskId) (role kind : String) : Int :=
  let generations := db.artifacts.rows.filterMap fun artifact =>
    match artifact.roleArtifact with
    | some entry =>
      if artifact.taskId = some taskId && entry.role = role && entry.kind = kind then
        some entry.generation
      else none
    | none => none
  generations.max?.getD 0 + 1

def relationsFor (db : Database) (id : ArtifactId) : List ArtifactRelation :=
  orderBy ArtifactRelation.createdAt
    (db.artifactRelations.rows.filter fun relation => relation.fromId = id || relation.toId = id)

def writeFencingTokenIsLive (db : Database) (now : Timestamp) (artifactId : ArtifactId)
    (agentId : AgentId) (fencingToken : Int) : Bool :=
  match get db artifactId with
  | none => false
  | some artifact => WorkLeaseRepo.checkFencingToken db now agentId artifact.uri fencingToken

def sameGeneration (a b : Artifact) : Bool :=
  match a.roleArtifact, b.roleArtifact with
  | some left, some right =>
    a.taskId.isSome && a.taskId = b.taskId && left.role = right.role && left.kind = right.kind &&
      left.generation = right.generation
  | _, _ => false

def upsert (db : Database) (artifact : Artifact) : Database :=
  let replaced := fun other : Artifact =>
    other.id = artifact.id || other.uri = artifact.uri || sameGeneration other artifact
  let gone := (db.artifacts.rows.filter replaced).map Artifact.id
  { db with
    artifacts := (db.artifacts.filter fun other => !replaced other).insertOrReplace artifact
    artifactRelations := db.artifactRelations.filter fun relation =>
      relation.fromId ∉ gone && relation.toId ∉ gone }

def updateArtifact (db : Database) (id : ArtifactId) (instant : Timestamp) (f : Artifact → Artifact) :
    Database :=
  { db with artifacts := db.artifacts.modify id fun artifact => { f artifact with updatedAt := instant } }

/-- A relation references its artifacts; a duplicate is ignored. -/
def addRelation (db : Database) (relation : ArtifactRelation) : Result Database :=
  let duplicate := db.artifactRelations.rows.any fun other =>
    other.id = relation.id ||
      (other.fromId = relation.fromId && other.toId = relation.toId && other.kind = relation.kind)
  if duplicate then .ok db
  else if db.artifacts.contains relation.fromId && db.artifacts.contains relation.toId then
    .ok { db with artifactRelations := db.artifactRelations.upsert relation }
  else .error (.storage "FOREIGN KEY constraint failed")

def applyArtifactEvent (db : Database) (now : Timestamp) (instant : Timestamp) :
    ArtifactEvent → Result Database
  | .artifactRegistered artifact => .ok (upsert db artifact)
  | .artifactOwnerAssigned artifactId ownerAgentId _ => .ok <| updateArtifact db artifactId instant
      fun artifact => { artifact with ownerAgentId := some ownerAgentId }
  | .artifactStatusChanged artifactId _ toStatus _ => .ok <| updateArtifact db artifactId instant
      fun artifact => { artifact with status := toStatus }
  | .roleArtifactStatusChanged artifactId _ toStatus _ =>
    match get db artifactId with
    | some ⟨_, _, _, _, _, _, _, _, _, _, some entry, _, _⟩ => .ok <| updateArtifact db artifactId instant
        fun artifact => { artifact with roleArtifact := some { entry with status := toStatus } }
    | _ => .ok db
  | .artifactChanged artifactId title description _ =>
    if title.isNone && description.isNone then .ok db
    else .ok <| updateArtifact db artifactId instant fun artifact =>
      { artifact with
        title := title.getD artifact.title
        description := description.getD artifact.description }
  | .artifactWriteCommitted artifactId agentId fencingToken version _ =>
    if writeFencingTokenIsLive db now artifactId agentId fencingToken then
      .ok <| updateArtifact db artifactId instant fun artifact =>
        { artifact with lastWriteToken := some fencingToken, version := version, status := .committed }
    else .ok db
  | .artifactDeprecated artifactId _ _ => .ok <| updateArtifact db artifactId instant
      fun artifact => { artifact with status := .deprecated }
  | .artifactRelationAdded relation => addRelation db relation
  | .artifactRelationRemoved _ fromId toId kind _ =>
    .ok { db with artifactRelations := db.artifactRelations.filter fun relation =>
      !(relation.fromId = fromId && relation.toId = toId && relation.kind = kind) }

def applyEvent (db : Database) (env : Env) (envelope : EventEnvelope) : Result Database :=
  match envelope.payload with
  | .artifact event => applyArtifactEvent db env.now envelope.occurredAt event
  | _ => .ok db

variable {db db' : Database}

theorem addRelation_frame {relation : ArtifactRelation} (h : addRelation db relation = .ok db') :
    ∃ relations, db' = { db with artifactRelations := relations } := by
  unfold addRelation at h
  dsimp only at h
  split at h
  · cases h
    exact ⟨_, rfl⟩
  · split at h
    · cases h
      exact ⟨_, rfl⟩
    · cases h

theorem applyEvent_frame {env : Env} {envelope : EventEnvelope} (h : applyEvent db env envelope = .ok db') :
    ∃ artifacts relations, db' = { db with artifacts := artifacts, artifactRelations := relations } := by
  unfold applyEvent at h
  split at h
  · rename_i event _
    cases event with
    | artifactRelationAdded relation =>
      obtain ⟨relations, rfl⟩ := addRelation_frame h
      exact ⟨_, relations, rfl⟩
    | artifactChanged | artifactWriteCommitted | roleArtifactStatusChanged =>
      dsimp only [applyArtifactEvent] at h
      split at h <;> cases h <;> exact ⟨_, _, rfl⟩
    | _ =>
      cases h
      exact ⟨_, _, rfl⟩
  · cases h
    exact ⟨_, _, rfl⟩

end ArtifactRepo
end Daruma
