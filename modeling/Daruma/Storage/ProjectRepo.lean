import Daruma.Storage.Database

/-! The projections of projects and their settings, of comments and of agent sessions; the
resource limits of tenants, and the foreign identities of entities. -/
namespace Daruma

namespace ProjectRepo

abbrev Projects := KeyedTable ProjectId Project Project.id

/-- The tenant of projects that name none. -/
def defaultTenantId : String := "self-hosted"

def listAll (db : Database) : List Project := orderBy Project.createdAt db.projects.rows

def upsertProject (projects : Projects) (project : Project) : Projects :=
  (projects.filter fun other => other.slug ≠ project.slug).insertOrReplace
    { project with tenantId := some (project.tenantId.getD defaultTenantId) }

def applyProjectEvent (projects : Projects) (envelope : EventEnvelope) : ProjectEvent → Projects
  | .projectCreated project => upsertProject projects project
  | .projectUpdated projectId title description =>
    match projects.find? projectId with
    | none => projects
    | some project => upsertProject projects { project with
        title := title.getD project.title
        description := description.getD project.description
        updatedAt := envelope.occurredAt }
  | .projectDeleted projectId => projects.erase projectId
  | .projectSettingsChanged .. => projects

def applyEvent (projects : Projects) (envelope : EventEnvelope) : Projects :=
  match envelope.payload with
  | .project event => applyProjectEvent projects envelope event
  | _ => projects

end ProjectRepo

namespace ProjectSettingsRepo

abbrev Settings := KeyedTable ProjectId ProjectSettings ProjectSettings.projectId

/-- The settings of a project that has none stored. -/
def defaultAutoAppend : AutoAppendSettings := ⟨true, true⟩

def stored (settings : Settings) (projectId : ProjectId) : ProjectSettings :=
  (settings.find? projectId).getD ⟨projectId, none, none, none⟩

def autoAppend (db : Database) (projectId : ProjectId) : AutoAppendSettings :=
  (stored db.projectSettings projectId).autoAppend.getD defaultAutoAppend

def intakeSource (db : Database) (projectId : ProjectId) : Option IntakeSourcePolicy :=
  (stored db.projectSettings projectId).intakeSource

def applyEvent (settings : Settings) (envelope : EventEnvelope) : Settings :=
  match envelope.payload with
  | .project (.projectSettingsChanged projectId autoAppend _ intakeSource audit) =>
    let old := stored settings projectId
    settings.upsert { old with
      autoAppend := some autoAppend
      intakeSource := intakeSource.getD old.intakeSource
      audit := audit.getD old.audit }
  | _ => settings

end ProjectSettingsRepo

namespace CommentRepo

abbrev Comments := KeyedTable CommentId Comment Comment.id

def get (db : Database) (id : CommentId) : Option Comment := db.comments.find? id

def applyEvent (comments : Comments) (envelope : EventEnvelope) : Comments :=
  match envelope.payload with
  | .comment (.commentAdded comment) => comments.insertOrReplace comment
  | .comment (.commentEdited commentId _ patch editedAt) =>
    match comments.find? commentId with
    | none => comments
    | some comment => comments.insertOrReplace
        { comment with body := patch.body.getD comment.body, editedAt := some editedAt }
  | .comment (.commentDeleted commentId _ deletedAt) =>
    comments.modify commentId fun comment => { comment with deletedAt := some deletedAt }
  | _ => comments

end CommentRepo

namespace SessionRepo

def get (db : Database) (id : AgentSessionId) : Option AgentSession := db.agentSessions.find? id

def applyEvent (db : Database) (envelope : EventEnvelope) : Database :=
  match envelope.payload with
  | .session (.agentSessionStarted session) =>
    { db with agentSessions := db.agentSessions.insertOrReplace session }
  | .session (.agentSessionEnded sessionId instant) =>
    { db with agentSessions := db.agentSessions.modify sessionId fun session =>
        { session with endedAt := some instant } }
  | .session (.agentSessionPlanUpdated sessionId steps) =>
    { db with agentSessions := db.agentSessions.modify sessionId fun session =>
        { session with planSteps := steps } }
  | .session (.sessionArtifactAttached artifact) =>
    { db with sessionArtifacts := db.sessionArtifacts.insertOrReplace artifact }
  | _ => db

theorem applyEvent_frame (db : Database) (envelope : EventEnvelope) :
    ∃ agentSessions sessionArtifacts, applyEvent db envelope =
      { db with agentSessions := agentSessions, sessionArtifacts := sessionArtifacts } := by
  unfold applyEvent
  split <;> exact ⟨_, _, rfl⟩

end SessionRepo

structure TenantLimits where
  maxTasks : Option Int
  maxPlans : Option Int

abbrev TenantQuotas := String → Option TenantLimits

namespace TenantQuotaRepo

open ProjectRepo (defaultTenantId)

def projectTenant (db : Database) (projectId : Option ProjectId) : Option String :=
  (projectId.bind db.projects.find?).bind Project.tenantId

def tenantForProject (db : Database) (projectId : Option ProjectId) : String :=
  match projectId with
  | none => defaultTenantId
  | some _ => (projectTenant db projectId).getD defaultTenantId

def countTasks (db : Database) (tenant : String) : Int :=
  db.tasks.rows.countP fun task =>
    projectTenant db task.projectId = some tenant || (tenant = defaultTenantId && task.projectId.isNone)

def countPlans (db : Database) (tenant : String) : Int :=
  db.plans.rows.countP fun plan => projectTenant db (some plan.projectId) = some tenant

def rejectIfFull (resource : String) (limit current : Int) : Result Unit :=
  if limit ≤ current then .error (.quotaExceeded resource limit current) else .ok ()

def checkTaskQuota (quotas : TenantQuotas) (db : Database) (projectId : Option ProjectId) : Result Unit :=
  let tenant := tenantForProject db projectId
  match (quotas tenant).bind TenantLimits.maxTasks with
  | none => .ok ()
  | some limit => rejectIfFull "tasks" limit (countTasks db tenant)

def checkPlanQuota (quotas : TenantQuotas) (db : Database) (projectId : ProjectId) : Result Unit :=
  let tenant := tenantForProject db (some projectId)
  match (quotas tenant).bind TenantLimits.maxPlans with
  | none => .ok ()
  | some limit => rejectIfFull "plans" limit (countPlans db tenant)

end TenantQuotaRepo

namespace ExternalRefRepo

/-- The internal identity of a foreign one. No event of the log writes the table. -/
def lookup (db : Database) (tenant kind externalId : String) : Option String :=
  (db.externalRefs.find? (tenant, kind, externalId)).map ExternalRef.internalId

end ExternalRefRepo
end Daruma
