import Daruma.Domain.Source
import Daruma.Storage.Database

/-! The projection of plans, their members and the graph of work sources. -/
namespace Daruma
namespace PlanRepo

def intakeMarker : String := "daruma:legacy-intake"

def get (db : Database) (id : PlanId) : Option Plan := db.plans.find? id

def listChildren (db : Database) (parentPlanId : PlanId) : List Plan :=
  orderBy Plan.createdAt (db.plans.rows.filter fun plan => plan.parentPlanId = some parentPlanId)

def listTasksOrdered (db : Database) (planId : PlanId) : List PlanTask :=
  orderBy PlanTask.position (db.planTasks.rows.filter fun member => member.planId = planId)

/-- Every plan that contains a task, by membership position and creation time. -/
def listPlansForTask (db : Database) (taskId : TaskId) : List Plan :=
  let members := orderBy PlanTask.position (db.planTasks.rows.filter fun member => member.taskId = taskId)
  let joined := members.filterMap fun member =>
    (db.plans.find? member.planId).map fun plan => (member.position, plan)
  let ordered := joined.insertionSort fun a b =>
    a.1 < b.1 ∨ (a.1 = b.1 ∧ a.2.createdAt ≤ b.2.createdAt)
  ordered.map Prod.snd

def earliestBySourceRef (db : Database) (projectId : ProjectId) (sourceRef : String) : Option PlanId :=
  let plans := db.plans.rows.filter fun plan =>
    plan.projectId = projectId && plan.sourceRef = some sourceRef && plan.archivedAt.isNone
  ((plans.insertionSort fun a b =>
    a.createdAt < b.createdAt ∨ (a.createdAt = b.createdAt ∧ a.id.uuid ≤ b.id.uuid)).head?).map Plan.id

def getSource (db : Database) (sourceRef : String) : Option SourceNode := db.sources.find? sourceRef

def sourcesBelow (db : Database) (sourceRef : String) : List String :=
  (db.sources.rows.filter fun node => node.upstreamRef = some sourceRef).map SourceNode.sourceRef

/-- The longest distance below a source, up to a bound. -/
def depthBelow (db : Database) : Nat → String → Nat
  | 0, _ => 0
  | n + 1, sourceRef => ((sourcesBelow db sourceRef).map fun below => depthBelow db n below + 1).foldl max 0

/-- A source and everything below it, up to a bound. -/
def sourceDescendants (db : Database) : Nat → String → List String
  | 0, sourceRef => [sourceRef]
  | n + 1, sourceRef => sourceRef :: (sourcesBelow db sourceRef).flatMap (sourceDescendants db n)

/-- A member task works in a branch, and in a repository if one is named. -/
def worksIn (db : Database) (planId : PlanId) (repo branch : Option String) : Bool :=
  branch.isSome && db.planTasks.rows.any fun member =>
    member.planId = planId && match (db.tasks.find? member.taskId).bind Task.gitContext with
      | some context => context.branch = branch && (repo.isNone || context.repo = repo)
      | none => false

def continuationCandidates (db : Database) (projectId : ProjectId) (chain : List String)
    (repo branch : Option String) : List Plan :=
  let below := (chain.head?.map (sourceDescendants db (sourceChainMax - 1))).getD []
  db.plans.rows.filter fun plan =>
    plan.projectId = projectId && plan.archivedAt.isNone && plan.status ≠ .abandoned &&
      ((plan.sourceRef.any fun sourceRef => sourceRef ∈ chain || sourceRef ∈ below) ||
        worksIn db plan.id repo branch)

/-- The project of every plan that a task belongs to, each once. -/
def memberProjects (db : Database) (taskId : TaskId) : List ProjectId :=
  ((db.planTasks.rows.filter fun member => member.taskId = taskId).filterMap fun member =>
    (db.plans.find? member.planId).map Plan.projectId).dedup

/-- Write a membership. A task without a project gets the one of its plan while
its plans agree on one. -/
def addTask (db : Database) (planId : PlanId) (taskId : TaskId) (position : Nat)
    (dependsOn : List TaskId) : Database :=
  let joined := { db with planTasks := db.planTasks.insertOrReplace ⟨planId, taskId, position, dependsOn⟩ }
  if (memberProjects joined taskId).length = 1 then
    { joined with tasks := joined.tasks.modify taskId fun task =>
        { task with projectId := task.projectId.or ((joined.plans.find? planId).map Plan.projectId) } }
  else joined

/-- Give the listed members their index as position. -/
def reorder (db : Database) (planId : PlanId) : Nat → List TaskId → Database
  | _, [] => db
  | position, taskId :: rest =>
    reorder { db with planTasks := db.planTasks.modify (planId, taskId) fun member =>
      { member with position := position } } planId (position + 1) rest

/-- Move `updated_at` forward, never back. -/
def touchPlan (db : Database) (planId : PlanId) (instant : Timestamp) : Database :=
  { db with plans := db.plans.modify planId fun plan =>
      if plan.updatedAt < instant then { plan with updatedAt := instant } else plan }

def updatePlan (db : Database) (planId : PlanId) (f : Plan → Plan) : Database :=
  { db with plans := db.plans.modify planId f }

/-- A source row keeps the fields it has and takes the others. -/
def fillSource (old new : SourceNode) : SourceNode :=
  { old with
    label := old.label.or new.label
    occurredAt := old.occurredAt.or new.occurredAt
    note := old.note.or new.note
    upstreamRef := old.upstreamRef.or new.upstreamRef }

def upsertSource (db : Database) (source : SourceNode) : Database :=
  match db.sources.find? source.sourceRef with
  | none => { db with sources := db.sources.upsert source }
  | some old => { db with sources := db.sources.upsert (fillSource old source) }

def applyPatch (db : Database) (env : Env) (envelope : EventEnvelope) (planId : PlanId)
    (patch : PlanPatch) : Database :=
  match db.plans.find? planId with
  | none => db
  | some plan =>
    let patched := patch.apply plan env.now
    let touched :=
      match plan.parentPlanId with
      | some formerParent =>
        if some formerParent ≠ patched.parentPlanId then touchPlan db formerParent envelope.occurredAt
        else db
      | none => db
    { touched with plans := touched.plans.insertOrReplace patched }

def deletePlan (db : Database) (planId : PlanId) (instant : Timestamp) : Database :=
  let touched :=
    match (db.plans.find? planId).bind Plan.parentPlanId with
    | some parent => touchPlan db parent instant
    | none => db
  { touched with
    planTasks := touched.planTasks.filter fun member => member.planId ≠ planId
    plans := touched.plans.erase planId }

def applyPlanEvent (db : Database) (env : Env) (envelope : EventEnvelope) : PlanEvent → Database
  | .planCreated plan => { db with plans := db.plans.insertOrReplace plan }
  | .planUpdated planId patch => applyPatch db env envelope planId patch
  | .planStatusChanged planId _ toStatus => updatePlan db planId fun plan =>
    { plan with status := toStatus, updatedAt := envelope.occurredAt }
  | .planGoalChanged planId _ toGoal => updatePlan db planId fun plan =>
    { plan with goal := toGoal, updatedAt := envelope.occurredAt }
  | .planTaskAdded planId taskId position dependsOn => addTask db planId taskId position dependsOn
  | .planTaskRemoved planId taskId => { db with planTasks := db.planTasks.erase (planId, taskId) }
  | .planReordered planId order => reorder db planId 0 order
  | .planArchived planId instant => updatePlan db planId fun plan =>
    { plan with status := .abandoned, archivedAt := some instant, updatedAt := instant }
  | .planDeleted planId instant => deletePlan db planId instant
  | .sourceUpserted source => upsertSource db source
  | .planSourceSet planId sourceRef instant => updatePlan db planId fun plan =>
    if plan.sourceRef = none then { plan with sourceRef := some sourceRef, updatedAt := instant } else plan
  | .planTaskAmended .. | .planModifiedByHuman .. => db

def applyEvent (db : Database) (env : Env) (envelope : EventEnvelope) : Database :=
  match envelope.payload with
  | .plan event => applyPlanEvent db env envelope event
  | _ => db

/-- The tables that plan events write. -/
def Frame (before after : Database) : Prop :=
  ∃ tasks plans planTasks sources, after = { before with
    tasks := tasks, plans := plans, planTasks := planTasks, sources := sources }

theorem Frame.refl (db : Database) : Frame db db := ⟨_, _, _, _, rfl⟩

theorem Frame.trans {first second third : Database} (h : Frame first second) (h' : Frame second third) :
    Frame first third := by
  obtain ⟨tasks, plans, planTasks, sources, rfl⟩ := h
  obtain ⟨tasks', plans', planTasks', sources', rfl⟩ := h'
  exact ⟨tasks', plans', planTasks', sources', rfl⟩

theorem addTask_frame (db : Database) (planId : PlanId) (taskId : TaskId) (position : Nat)
    (dependsOn : List TaskId) : Frame db (addTask db planId taskId position dependsOn) := by
  unfold addTask
  dsimp only
  split
  · exact ⟨_, _, _, _, rfl⟩
  · exact ⟨_, _, _, _, rfl⟩

theorem reorder_frame (db : Database) (planId : PlanId) (position : Nat) (order : List TaskId) :
    Frame db (reorder db planId position order) := by
  induction order generalizing db position with
  | nil => exact .refl db
  | cons taskId rest ih => exact Frame.trans ⟨_, _, _, _, rfl⟩ (ih _ (position + 1))

theorem applyPatch_frame (db : Database) (env : Env) (envelope : EventEnvelope) (planId : PlanId)
    (patch : PlanPatch) : Frame db (applyPatch db env envelope planId patch) := by
  unfold applyPatch
  split
  · exact .refl db
  · dsimp only
    split
    · split
      · exact ⟨_, _, _, _, rfl⟩
      · exact ⟨_, _, _, _, rfl⟩
    · exact ⟨_, _, _, _, rfl⟩

theorem deletePlan_frame (db : Database) (planId : PlanId) (instant : Timestamp) :
    Frame db (deletePlan db planId instant) := by
  unfold deletePlan
  dsimp only
  split
  · exact ⟨_, _, _, _, rfl⟩
  · exact ⟨_, _, _, _, rfl⟩

theorem applyPlanEvent_frame (db : Database) (env : Env) (envelope : EventEnvelope) (event : PlanEvent) :
    Frame db (applyPlanEvent db env envelope event) := by
  cases event with
  | planUpdated planId patch => exact applyPatch_frame db env envelope planId patch
  | planTaskAdded planId taskId position dependsOn => exact addTask_frame db planId taskId position dependsOn
  | planReordered planId order => exact reorder_frame db planId 0 order
  | planDeleted planId instant => exact deletePlan_frame db planId instant
  | sourceUpserted source =>
    change Frame db (upsertSource db source)
    unfold upsertSource
    split
    · exact ⟨_, _, _, _, rfl⟩
    · exact ⟨_, _, _, _, rfl⟩
  | _ => exact ⟨_, _, _, _, rfl⟩

theorem applyEvent_frame (db : Database) (env : Env) (envelope : EventEnvelope) :
    Frame db (applyEvent db env envelope) := by
  unfold applyEvent
  split
  · exact applyPlanEvent_frame db env envelope _
  · exact .refl db

end PlanRepo
end Daruma
