import Daruma.Core.PlanSource
import Daruma.Storage.TaskRepo

/-! The events of the commands about plans and their members. -/
namespace Daruma
namespace PlanCommands

open Outcome
open PlanConcurrency (detectParentCycle)

/-- Where a batch lands its tasks: a new plan, or one that has members. -/
structure MaterializeTarget where
  planId : PlanId
  projectId : ProjectId
  gitContext : Option GitContext
  firstPosition : Nat
  members : List TaskId
  sourceNote : Option String

private def debugProject : Option ProjectId → String
  | some id => s!"Some(ProjectId({hyphenated id.uuid}))"
  | none => "None"

/-- A task of a batch as it is created: trimmed, normalised, sorted into the
project of its plan and past triage. -/
def prepareTask (projectId : ProjectId) (task : NewTask) : Result NewTask := do
  let title := trim task.title
  ensure (title ≠ "") (.validation "task title must not be empty")
  ensure (byteLength title ≤ 500) (.validation "task title must not exceed 500 characters")
  let task := normalizeExternalKey { task with title := title }
  pure { task with status := some (task.status.getD .todo), projectId := some projectId }

def claimKey (batchKeys : List String) (key : Option String) : Result (List String) :=
  match key with
  | none => .ok batchKeys
  | some key =>
    if key ∈ batchKeys then .error (.validation s!"duplicate_external_key_in_materialize_plan: `{key}`")
    else .ok (key :: batchKeys)

def createdEvents (env : Env) (target : MaterializeTarget) (actor : Actor) (id : TaskId) (task : NewTask) :
    List Event :=
  .task (.taskCreated { task with id := some id }) ::
    ((target.gitContext.map fun context =>
        Event.task (.taskUpdated id { TaskPatch.none with gitContext := some (some context) })).toList ++
      ((target.sourceNote.map fun note => taskCommentEvents (env.part 2) id note actor).getD []))

/-- One task of a batch: a comment on the task that its key names already, or a
new task. -/
def materializedTask (db : Database) (env : Env) (target : MaterializeTarget) (actor : Actor)
    (task : NewTask) : Result (TaskId × List Event) :=
  match task.externalKey.bind fun key => (TaskRepo.findByExternalKey db key).map fun found => (key, found) with
  | some (key, existing) =>
    if existing.projectId ≠ some target.projectId then .error (.validation
      s!"external_key_project_mismatch: external_key `{key}` belongs to project {debugProject existing.projectId}, not plan project {target.projectId}")
    else .ok (existing.id, redeliveredCreateEvents (env.part 1) existing.id key task actor)
  | none =>
    let id := task.id.getD (env.fresh 0)
    .ok (id, createdEvents env target actor id task)

/-- The events of a batch of tasks, in order. Tasks that are members already
keep their place. -/
def materializedTaskEvents (db : Database) (env : Env) (target : MaterializeTarget) (actor : Actor) :
    Nat → Nat → List String → List NewTask → Result (List Event)
  | _, _, _, [] => .ok []
  | n, position, batchKeys, task :: rest => do
    let task ← prepareTask target.projectId task
    let batchKeys ← claimKey batchKeys task.externalKey
    let (id, events) ← materializedTask db (env.part n) target actor task
    if id ∈ target.members then do
      let later ← materializedTaskEvents db env target actor (n + 1) position batchKeys rest
      pure (events ++ later)
    else do
      let later ← materializedTaskEvents db env target actor (n + 1) (position + 1) batchKeys rest
      pure (events ++ .plan (.planTaskAdded target.planId id position []) :: later)

/-- Land a batch of tasks at a target. -/
def materialize (db : Database) (env : Env) (target : MaterializeTarget) (actor : Actor)
    (tasks : List NewTask) : Result (List Event) :=
  materializedTaskEvents db env target actor 0 target.firstPosition [] tasks

/-- A plan title is trimmed, and neither empty nor longer than 500 bytes. -/
def trimmedTitle (title : String) : Result String := do
  let title := trim title
  ensure (title ≠ "") (.validation "plan title must not be empty")
  ensure (byteLength title ≤ 500) (.validation "plan title must not exceed 500 characters")
  pure title

/-- The checks that both ways of creating a plan make. -/
def newPlan (config : Config) (db : Database) (env : Env) (plan : NewPlan) : Result Plan := do
  let title ← trimmedTitle plan.title
  match config.tenantQuotas with
  | some quotas => TenantQuotaRepo.checkPlanQuota quotas db plan.projectId
  | none => pure ()
  match plan.parentPlanId with
  | some parent => detectParentCycle db (env.fresh 0) parent
  | none => pure ()
  pure ({ plan with title := title }.intoPlan (env.fresh 0) env.now)

/-- A plan with its tasks is decided work: it is active from the start. -/
def materializePlan (config : Config) (db : Database) (env : Env) (actor : Actor) (plan : NewPlan)
    (tasks : List NewTask) : Result (List Event) := do
  ensure (!tasks.isEmpty) (.validation "materialize_plan requires at least one task")
  let created ← newPlan config db env plan
  let events ← materialize db (env.part 1) ⟨created.id, plan.projectId, plan.gitContext, 0, [], none⟩ actor
    tasks
  pure (.plan (.planCreated { created with status := .active }) :: events)

def inheritedContext (db : Database) (members : List PlanTask) (context : Option GitContext) :
    Result (Option GitContext) :=
  match context with
  | some context => do
    let normal ← orValidation context.normalized
    pure (some normal)
  | none => .ok (members.reverse.findSome? fun member => (db.tasks.find? member.taskId).bind Task.gitContext)

def reopenEvents (plan : Plan) : Result (List Event) := do
  ensure plan.archivedAt.isNone (.validation
    s!"plan {plan.id} is archived: tasks cannot be added to it, materialize a new plan")
  match plan.status with
  | .abandoned => .error (.validation
      s!"plan {plan.id} is abandoned: tasks cannot be added to it, materialize a new plan")
  | .completed => pure [.plan (.planStatusChanged plan.id .completed .active)]
  | .draft | .active => pure []

/-- Append tasks to a plan, which keeps its own title, project and source. -/
def appendMaterializedTasks (db : Database) (env : Env) (actor : Actor) (planId : PlanId) (plan : NewPlan)
    (tasks : List NewTask) : Result (List Event) := do
  ensure (!tasks.isEmpty) (.validation "materialize_plan requires at least one task")
  let existing ← requirePlan db planId
  let reopened ← reopenEvents existing
  let sourceNote ← PlanSource.appendedSourceNote db existing plan
  let members := PlanRepo.listTasksOrdered db planId
  let gitContext ← inheritedContext db members plan.gitContext
  let events ← materialize db (env.part 1)
    ⟨planId, existing.projectId, gitContext, nextPosition members, members.map PlanTask.taskId, sourceNote⟩
    actor tasks
  pure (reopened ++ events)

/-- A known foreign identity makes the creation a repetition. -/
def createPlan (config : Config) (db : Database) (env : Env) (plan : NewPlan)
    (externalRef : Option (String × String × String)) : Result (List PlanEvent) :=
  let known := match externalRef with
    | some (tenant, kind, externalId) => (ExternalRefRepo.lookup db tenant kind externalId).isSome
    | none => false
  if known then .ok []
  else do
    let created ← newPlan config db env plan
    pure [.planCreated created]

def updatePlan (db : Database) (id : PlanId) (patch : PlanPatch) : Result (List PlanEvent) := do
  ensure (!patch.isEmpty) (.validation "update patch must not be empty")
  let plan ← requirePlan db id
  match patch.parentPlanId with
  | some (some parent) => detectParentCycle db id parent
  | _ => pure ()
  let goalChanged := match patch.goal with
    | some goal => if goal = plan.goal then [] else [PlanEvent.planGoalChanged id plan.goal goal]
    | none => []
  pure (goalChanged ++ [.planUpdated id patch])

def amendPlanTask (db : Database) (planId : PlanId) (taskId : TaskId) (patch : TaskPatch) :
    Result (List Event) := do
  ensure (!patch.isEmpty) (.validation "amend patch must not be empty")
  ensure (patch.status.isNone && patch.priority.isNone && patch.triageState.isNone && patch.dueAt.isNone)
    (.validation ("amend_patch_has_execution_fields: amend_plan_task patches only plan-owned fields " ++
      "(title/description/project_id). Execution-owned fields go through set_status / set_priority / update_task"))
  ensure (!(planOwnedPatchFields patch).isEmpty)
    (.validation "amend patch must set at least one plan-owned field (title/description/project_id)")
  let _ ← requirePlan db planId
  let _ ← requireTask db taskId
  ensure ((PlanRepo.listTasksOrdered db planId).any fun member => member.taskId = taskId)
    (.validation s!"task_not_in_plan: task {taskId} is not a member of plan {planId}")
  pure [.plan (.planTaskAmended planId taskId patch), .task (.taskUpdated taskId patch),
    .plan (.planModifiedByHuman planId (activeRunForPlan db planId))]

/-- A plan that goes away ends its active runs. -/
def abortedRuns (db : Database) (now : Timestamp) (planId : PlanId) (reason : String) : List Event :=
  (RunRepo.listActiveForPlan db planId).flatMap fun run =>
    [.run (.runAborted run.id reason now), .run (.runObsolescedByPlanEdit run.id planId .archived)]

def archivePlan (db : Database) (now : Timestamp) (id : PlanId) : Result (List Event) := do
  let plan ← requirePlan db id
  if plan.archivedAt.isSome then pure []
  else pure (.plan (.planArchived id now) :: abortedRuns db now id "plan_archived")

def deletePlan (db : Database) (now : Timestamp) (id : PlanId) : Result (List Event) := do
  let _ ← requirePlan db id
  let attached := (PlanRepo.listTasksOrdered db id).length
  ensure (attached = 0) (.conflict s!"plan_not_empty: {attached} task(s) attached")
  pure (.plan (.planDeleted id now) :: abortedRuns db now id "plan_deleted")

def setPlanGoal (db : Database) (planId : PlanId) (goal : String) : Result (List PlanEvent) := do
  let plan ← requirePlan db planId
  if plan.goal = goal then pure []
  else pure [.planGoalChanged planId plan.goal goal,
    .planUpdated planId ⟨none, none, some goal, none, none⟩]

def ensureMembersFinished (db : Database) (planId : PlanId) : Result Unit :=
  ensure ((PlanRepo.listTasksOrdered db planId).all fun member =>
      match db.tasks.find? member.taskId with
      | some task => task.status.isTerminal
      | none => true)
    (.validation "cannot complete plan: it has unfinished tasks (move them to done/cancelled first)")

def setPlanStatus (db : Database) (planId : PlanId) (status : PlanStatus) : Result (List PlanEvent) := do
  let plan ← requirePlan db planId
  if plan.status = status then pure []
  else do
    if status = .completed then ensureMembersFinished db planId else pure ()
    pure [.planStatusChanged planId plan.status status]

def addPlanTask (db : Database) (planId : PlanId) (taskId : TaskId) (position : Option Nat)
    (dependsOn : Option (List TaskId)) : Result (List PlanEvent) := do
  let _ ← requirePlan db planId
  let _ ← requireTask db taskId
  let place := position.getD (nextPosition (PlanRepo.listTasksOrdered db planId))
  pure [.planTaskAdded planId taskId place (dependsOn.getD []),
    .planModifiedByHuman planId (activeRunForPlan db planId)]

/-- Tasks that are members already are skipped. -/
def bulkAttachToPlan (db : Database) (planId : PlanId) (taskIds : List TaskId) : Result (List PlanEvent) := do
  let unique := dedupeIds taskIds
  validateBulkCap unique.length
  let _ ← requirePlan db planId
  let missing := unique.filter fun id => (db.tasks.find? id).isNone
  ensure missing.isEmpty (.notFound
    s!"bulk_attach_to_plan: {missing.length} task(s) not found: {TaskId.debugList missing}")
  let existing := PlanRepo.listTasksOrdered db planId
  let added := unique.filter fun id => id ∉ existing.map PlanTask.taskId
  if added.isEmpty then pure []
  else pure (added.zipIdx.map (fun entry =>
      PlanEvent.planTaskAdded planId entry.1 (nextPosition existing + entry.2) []) ++
    [.planModifiedByHuman planId (activeRunForPlan db planId)])

/-- The first active run of the plan that works on the task loses its step. -/
def removePlanTask (db : Database) (env : Env) (actor : Actor) (planId : PlanId) (taskId : TaskId) :
    Result (List Event) := do
  let _ ← requirePlan db planId
  let contested := (RunRepo.listActiveForPlan db planId).find? fun run =>
    RunRepo.currentStepTask db run.id = some taskId
  let superseded := match contested with
    | some run =>
      [Event.task (.taskContested taskId [actor, .agent (env.fresh 0) (toString run.agentId) none] none),
        .run (.runStepFinished run.id taskId .superseded env.now)]
    | none => []
  pure (.plan (.planTaskRemoved planId taskId) :: superseded)

def reorderPlan (db : Database) (planId : PlanId) (order : List TaskId) : Result (List PlanEvent) := do
  let _ ← requirePlan db planId
  pure [.planReordered planId order, .planModifiedByHuman planId (activeRunForPlan db planId)]

end PlanCommands
end Daruma
