import Daruma.Core.Config
import Daruma.Storage.ArtifactRepo
import Daruma.Storage.EvidenceRepo
import Daruma.Storage.RuleRepo

/-! The events of the commands about lifecycle rules, evidence and artifacts. -/
namespace Daruma

open Outcome

/-- Rules and evidence are recorded only for scopes that exist. -/
def requireScope (db : Database) (label : String) (scope : RuleScope) : Result Unit :=
  let found := match scope with
    | .tenant => true
    | .project id => db.projects.contains id
    | .plan id => db.plans.contains id
    | .task id => db.tasks.contains id
  let scopeId := scope.idString.getD ""
  ensure found (.validation s!"{label} {scope.kind} scope target {scopeId} does not exist")

namespace RuleCommands

def requireRule (db : Database) (id : RuleId) : Result Rule :=
  okOr (RuleRepo.get db id) (.notFound s!"rule {id}")

def ensurePlacement (requirement : Requirement) (scope : RuleScope) (trigger : RuleTrigger) : Result Unit :=
  match requirement.placementError scope trigger with
  | some message => .error (.validation message)
  | none => .ok ()

def createRule (db : Database) (env : Env) (new : NewRule) : Result (List RuleEvent) := do
  ensure (!isBlank new.ruleKey) (.validation "rule_key must not be empty")
  ensurePlacement new.requirement new.scope new.trigger
  requireScope db "rule" new.scope
  ensure ((RuleRepo.listForScope db new.scope).all fun rule => rule.ruleKey ≠ new.ruleKey)
    (.conflict s!"rule_key `{new.ruleKey}` already exists at this scope")
  pure [.ruleCreated (new.intoRule (env.fresh 0) env.now)]

def updateRule (db : Database) (now : Timestamp) (id : RuleId) (patch : RulePatch) :
    Result (List RuleEvent) := do
  ensure (!patch.isEmpty) (.validation "update must set at least one field")
  let current ← requireRule db id
  let updated := patch.apply current now
  ensurePlacement updated.requirement updated.scope updated.trigger
  pure [.ruleUpdated updated]

def buildEvents (db : Database) (env : Env) : RuleCommand → Result (List RuleEvent)
  | .createRule rule => createRule db env rule
  | .updateRule id patch => updateRule db env.now id patch
  | .disableRule id => do
    let current ← requireRule db id
    if current.enabled then pure [.ruleDisabled id env.now] else pure []
  | .deleteRule id => do
    let _ ← requireRule db id
    pure [.ruleDeleted id]

end RuleCommands

namespace EvidenceCommands

/-- A correction marks the old record. -/
def recordEvidence (db : Database) (env : Env) (actor : Actor) (new : NewEvidence) :
    Result (List EvidenceEvent) := do
  requireScope db "evidence" new.scope
  let record := new.intoEvidence (env.fresh 0) (ActorRef.fromActor actor) env.now
  pure (.evidenceRecorded record ::
    (new.supersedes.map fun old => EvidenceEvent.evidenceSuperseded old record.id env.now).toList)

end EvidenceCommands

namespace ArtifactCommands

def requireArtifact (db : Database) (id : ArtifactId) : Result Artifact :=
  okOr (ArtifactRepo.get db id) (.notFound s!"artifact {id} not found")

def ensureUriFree (db : Database) (uri : String) : Result Unit :=
  ensure (ArtifactRepo.getByUri db uri).isNone (.conflict s!"artifact with uri {uri} already registered")

def registerArtifact (db : Database) (env : Env) (new : NewArtifact) : Result (List ArtifactEvent) := do
  ensure (!isBlank new.uri) (.validation "artifact uri must not be empty")
  ensure (!isBlank new.title) (.validation "artifact title must not be empty")
  ensureUriFree db new.uri
  pure [.artifactRegistered (new.intoArtifact (env.fresh 0) env.now)]

def updateArtifact (db : Database) (now : Timestamp) (id : ArtifactId) (title description : Option String) :
    Result (List ArtifactEvent) := do
  ensure (title.isSome || description.isSome) (.validation "update must set at least one field")
  ensure (!title.any isBlank) (.validation "artifact title must not be empty")
  let _ ← requireArtifact db id
  pure [.artifactChanged id title description now]

def commitArtifactWrite (db : Database) (now : Timestamp) (id : ArtifactId) (agentId : AgentId)
    (fencingToken : Int) (version : Option String) : Result (List ArtifactEvent) := do
  let _ ← requireArtifact db id
  ensure (ArtifactRepo.writeFencingTokenIsLive db now id agentId fencingToken)
    (.conflict s!"stale or foreign fencing token for artifact {id}")
  pure [.artifactWriteCommitted id agentId fencingToken version now]

/-- A deprecation without a reason points at its replacement. -/
def requireArtifactReplacement (db : Database) (id : ArtifactId) : Result Unit :=
  ensure ((ArtifactRepo.relationsFor db id).any fun relation =>
      relation.toId = id && relation.kind = .supersedes)
    (.validation s!"deprecating artifact {id} needs a reason or an incoming supersedes relation")

def deprecateArtifact (db : Database) (now : Timestamp) (id : ArtifactId) (reason : Option String) :
    Result (List ArtifactEvent) := do
  let current ← requireArtifact db id
  if current.status = .deprecated then pure []
  else do
    let reason := (reason.map trim).filter fun text => text ≠ ""
    if reason.isNone then requireArtifactReplacement db id else pure ()
    pure [.artifactDeprecated id reason now]

/-- Declaring a replacement retires the replaced artifact. -/
def addArtifactRelation (db : Database) (env : Env) (source target : ArtifactId)
    (kind : ArtifactRelationKind) : Result (List ArtifactEvent) := do
  ensure (source ≠ target) (.validation "artifact relation endpoints must differ")
  let sourceArtifact ← requireArtifact db source
  let targetArtifact ← requireArtifact db target
  ensure ((ArtifactRepo.relationsFor db source).all fun relation =>
      !(relation.toId = target && relation.kind = kind))
    (.conflict s!"artifact relation {source} -> {target} ({kind.asStr}) already exists")
  ensure (kind ≠ .supersedes || sourceArtifact.status ≠ .deprecated)
    (.validation s!"deprecated artifact {source} cannot supersede {target}")
  let retired := if kind = .supersedes ∧ targetArtifact.status ≠ .deprecated then
      [ArtifactEvent.artifactDeprecated target (some s!"superseded by {sourceArtifact.uri}") env.now]
    else []
  pure (.artifactRelationAdded ⟨env.fresh 0, source, target, kind, env.now⟩ :: retired)

def removeArtifactRelation (db : Database) (now : Timestamp) (source target : ArtifactId)
    (kind : ArtifactRelationKind) : Result (List ArtifactEvent) := do
  let relation ← okOr ((ArtifactRepo.relationsFor db source).find? fun relation =>
      relation.toId = target && relation.kind = kind)
    (.notFound s!"artifact relation {source} -> {target} ({kind.asStr}) not found")
  pure [.artifactRelationRemoved relation.id source target kind now]

def changeArtifactStatus (db : Database) (now : Timestamp) (id : ArtifactId) (toStatus : ArtifactStatus) :
    Result (List ArtifactEvent) := do
  let current ← requireArtifact db id
  if current.status = toStatus then pure []
  else do
    if toStatus = .deprecated then requireArtifactReplacement db id else pure ()
    pure [.artifactStatusChanged id current.status toStatus now]

/-- A role and a kind are segments of a URI. -/
def ensureSegment (field value : String) : Result Unit := do
  ensure (value ≠ "") (.validation s!"role artifact {field} must not be empty")
  ensure (value.toList.all fun c => c.isAlphanum || c = '_' || c = '-' || c = '.')
    (.validation s!"role artifact {field} must use [A-Za-z0-9_.-] only: {value}")

def ensureSupersedable (db : Database) (taskId : TaskId) (role kind : String) (id : ArtifactId) :
    Result Unit := do
  let previous ← requireArtifact db id
  match if previous.taskId = some taskId then previous.roleArtifact else none with
  | some entry =>
    ensure (entry.role = role && entry.kind = kind)
      (.validation s!"artifact {id} is not a {role}/{kind} role artifact of task {taskId}")
    ensure (entry.status.canTransitionTo .superseded)
      (.conflict s!"role artifact {id} is {entry.status.asStr}, only proposed can be superseded")
  | none => .error (.validation s!"artifact {id} is not a {role}/{kind} role artifact of task {taskId}")

def proposeRoleArtifact (db : Database) (env : Env) (taskId : TaskId) (role kind : String)
    (payload : JsonValue) (title : Option String) (supersedes artifactId : Option ArtifactId) :
    Result (List ArtifactEvent) := do
  let role := trim role
  let kind := trim kind
  ensureSegment "role" role
  ensureSegment "kind" kind
  let task ← okOr (db.tasks.find? taskId) (.notFound s!"task {taskId} not found")
  match supersedes with
  | some previous => ensureSupersedable db taskId role kind previous
  | none => pure ()
  let generation := ArtifactRepo.nextRoleGeneration db taskId role kind
  let uri := RoleArtifact.uri taskId role kind generation
  ensureUriFree db uri
  let id := artifactId.getD (env.fresh 0)
  let title := ((title.map trim).filter fun text => text ≠ "").getD s!"{role} {kind} #{generation}"
  let record : Artifact :=
    ⟨id, uri, title, "", .committed, none, some taskId, task.projectId, none, none,
      some ⟨role, kind, generation, .proposed, payload⟩, env.now, env.now⟩
  let retired := match supersedes with
    | some previous =>
      [ArtifactEvent.roleArtifactStatusChanged previous .proposed .superseded env.now,
        .artifactRelationAdded ⟨env.fresh 1, id, previous, .supersedes, env.now⟩]
    | none => []
  pure (.artifactRegistered record :: retired)

def setRoleArtifactStatus (db : Database) (now : Timestamp) (id : ArtifactId)
    (toStatus : RoleArtifactStatus) : Result (List ArtifactEvent) := do
  let current ← requireArtifact db id
  let entry ← okOr current.roleArtifact (.validation s!"artifact {id} is not a role artifact")
  if entry.status = toStatus then pure []
  else do
    ensure (entry.status.canTransitionTo toStatus)
      (.conflict s!"role artifact transition {entry.status.asStr} -> {toStatus.asStr} is not allowed")
    pure [.roleArtifactStatusChanged id entry.status toStatus now]

def buildEvents (db : Database) (env : Env) : ArtifactCommand → Result (List ArtifactEvent)
  | .registerArtifact artifact => registerArtifact db env artifact
  | .updateArtifact artifactId title description => updateArtifact db env.now artifactId title description
  | .commitArtifactWrite artifactId agentId fencingToken version =>
    commitArtifactWrite db env.now artifactId agentId fencingToken version
  | .deprecateArtifact artifactId reason => deprecateArtifact db env.now artifactId reason
  | .addArtifactRelation source target kind => addArtifactRelation db env source target kind
  | .removeArtifactRelation source target kind => removeArtifactRelation db env.now source target kind
  | .assignArtifactOwner artifactId ownerAgentId => do
    let _ ← requireArtifact db artifactId
    pure [.artifactOwnerAssigned artifactId ownerAgentId env.now]
  | .changeArtifactStatus artifactId toStatus => changeArtifactStatus db env.now artifactId toStatus
  | .proposeRoleArtifact taskId role kind payload title supersedes artifactId =>
    proposeRoleArtifact db env taskId role kind payload title supersedes artifactId
  | .setRoleArtifactStatus artifactId toStatus => setRoleArtifactStatus db env.now artifactId toStatus

end ArtifactCommands
end Daruma
