import Daruma.Core.Config
import Daruma.Storage.DocumentRepo
import Daruma.Storage.PlanRepo
import Daruma.Storage.TaskRepo

/-! The events of the commands about tasks and the relations between them, and the enforcement of
typed relations: cycles, active blockers, and the tasks that a completion sets free. -/
namespace Daruma

open Stateful (lift get collect set)

namespace RelationEnforcement

/-- The number of tasks a cycle search visits before it gives up. -/
def maxDepth : Nat := 1000

/-- Depth-first search for `source` along `blocks` edges. The head of the stack
is popped first, and targets are pushed in their order. -/
def searchCycle (relations : Relations) (source : TaskId) :
    Nat → List TaskId → List TaskId → Result Unit
  | _, _, [] => .ok ()
  | 0, _, _ :: _ => .error (.validation "relation_graph_too_deep")
  | steps + 1, visited, current :: stack =>
    if current = source then .error (.validation "cycle_detected")
    else if current ∈ visited then searchCycle relations source steps visited stack
    else
      let targets := (RelationRepo.listBlocksTargets relations current).map Relation.target
      searchCycle relations source steps (current :: visited) (targets.reverse ++ stack)

/-- Only `blocks` edges must stay acyclic. -/
def detectCycle (relations : Relations) (source target : TaskId) (kind : RelationKind) : Result Unit :=
  if kind ≠ .blocks then .ok ()
  else if source = target then .error (.validation "cycle_detected")
  else searchCycle relations source maxDepth [] [target]

def notDone (tasks : Tasks) (id : TaskId) : Bool :=
  match tasks.find? id with
  | some task => task.status ≠ .done
  | none => false

/-- The existing blockers of a task that are not done. A blocker that is gone
counts as resolved. -/
def listActiveBlockers (relations : Relations) (tasks : Tasks) (taskId : TaskId) : List TaskId :=
  ((RelationRepo.listBlockers relations taskId).map Relation.source).filter (notDone tasks)

def othersDone (relations : Relations) (tasks : Tasks) (blockerId target : TaskId) : Bool :=
  (RelationRepo.listBlockers relations target).all fun relation =>
    relation.source = blockerId ||
      match tasks.find? relation.source with
      | some task => task.status = .done
      | none => false

def listDownstreamToUnblock (relations : Relations) (tasks : Tasks) (blockerId : TaskId) : List TaskId :=
  if notDone tasks blockerId then
    ((RelationRepo.listBlocksTargets relations blockerId).map Relation.target).filter
      (othersDone relations tasks blockerId)
  else []

theorem mem_listActiveBlockers {relations : Relations} {tasks : Tasks} {taskId blocker : TaskId} :
    blocker ∈ listActiveBlockers relations tasks taskId ↔
      (∃ relation ∈ relations, relation.source = blocker ∧ relation.target = taskId ∧
        relation.kind = .blocks) ∧ ∃ task ∈ tasks, task.id = blocker ∧ task.status ≠ .done := by
  have hNotDone : notDone tasks blocker = true ↔ ∃ task ∈ tasks, task.id = blocker ∧ task.status ≠ .done := by
    unfold notDone
    constructor
    · intro h
      split at h
      · rename_i task hFind
        obtain ⟨hMem, hId⟩ := KeyedTable.find?_eq_some_iff.mp hFind
        exact ⟨task, hMem, hId, by simpa using h⟩
      · cases h
    · rintro ⟨task, hMem, rfl, hStatus⟩
      rw [KeyedTable.find?_of_mem hMem]
      simpa using hStatus
  simp only [listActiveBlockers, List.mem_filter, List.mem_map, RelationRepo.mem_listBlockers, hNotDone]
  constructor
  · rintro ⟨⟨relation, ⟨hMem, hTarget, hKind⟩, rfl⟩, hTask⟩
    exact ⟨⟨relation, hMem, rfl, hTarget, hKind⟩, hTask⟩
  · rintro ⟨⟨relation, hMem, rfl, hTarget, hKind⟩, hTask⟩
    exact ⟨⟨relation, ⟨hMem, hTarget, hKind⟩, rfl⟩, hTask⟩

end RelationEnforcement
namespace TaskCommands

open Outcome

def ensureDirectStatusWrite (db : Database) (id : TaskId) (toStatus : Status) : Result Unit :=
  match TaskRepo.pipelinePosition db id with
  | none => .ok ()
  | some position =>
    if directStatusWriteAllowed (some position) toStatus then .ok ()
    else .error (.conflict
      (s!"pipeline_managed: task {id} is at workflow_policy stage {position.stageIndex} ({position.role}); its " ++
        "status is derived from the pipeline position and changes only through " ++
        "advance_pipeline (direct writes allow only cancelled)"))

def closeTaskDocuments (db : Database) (taskId : TaskId) (toStatus : Status) (now : Timestamp) :
    List Event :=
  let closeAs := fun target => (DocumentRepo.listLiveByTask db taskId).map fun doc =>
    Event.document (.documentStatusChanged doc.id doc.status target now)
  match toStatus with
  | .done => closeAs .frozen
  | .cancelled => closeAs .archived
  | _ => []

def relabelBlocks (now : Timestamp) (relation : Relation) : Building (List Event) := do
  let relations ← get
  let relabelled ← lift (RelationRepo.updateKind relations relation.id .wasBlocking)
  set relabelled
  pure [.relation (.taskRelationKindChanged relation.id relation.source relation.target .blocks .wasBlocking
    now)]

/-- What a completion sets free, and the relabelling of the edges that held it. -/
def releaseDownstream (db : Database) (id : TaskId) (now : Timestamp) : Building (List Event) := do
  let relations ← get
  let unblocked := (RelationEnforcement.listDownstreamToUnblock relations db.tasks id).map fun taskId =>
    Event.task (.taskUnblocked taskId id now)
  let relabelled ← collect (relabelBlocks now) (RelationRepo.listBlocksTargets relations id)
  pure (unblocked ++ relabelled)

def closureEvents (id : TaskId) (fromStatus toStatus : Status) (actor : Actor) (now : Timestamp) :
    List Event :=
  if fromStatus.isTerminal ∧ ¬toStatus.isTerminal then [.task (.taskReopened id actor now)]
  else if ¬fromStatus.isTerminal ∧ toStatus.isTerminal then [.task (.taskClosed id actor now)]
  else []

/-- The transition of one task, with everything that hangs off it. -/
def statusTransitionEvents (db : Database) (task : Task) (toStatus : Status) (actor : Actor)
    (now : Timestamp) : Building (List Event) :=
  if task.status = toStatus then pure []
  else do
    let relations ← get
    let blockedBy := RelationEnforcement.listActiveBlockers relations db.tasks task.id
    lift (ensure (toStatus ≠ .done || blockedBy.isEmpty)
      (.conflict s!"task_blocked: task {task.id} blocked by {blockedBy.length} task(s): {TaskId.debugList blockedBy}"))
    let released ← if toStatus = .done then releaseDownstream db task.id now else pure []
    pure ([.task (.taskStatusChanged task.id task.status toStatus)] ++
      closureEvents task.id task.status toStatus actor now ++ released ++
      closeTaskDocuments db task.id toStatus now)

/-- A transition that a command asks for directly. -/
def emitStatusTransitionEvents (db : Database) (task : Task) (toStatus : Status) (actor : Actor)
    (now : Timestamp) : Building (List Event) := do
  lift (ensureDirectStatusWrite db task.id toStatus)
  statusTransitionEvents db task toStatus actor now

/-- A title is trimmed, and neither empty nor longer than 500 bytes. -/
def trimmedTitle (title : String) : Result String := do
  let title := trim title
  ensure (title ≠ "") (.validation "task title must not be empty")
  ensure (byteLength title ≤ 500) (.validation "task title must not exceed 500 characters")
  pure title

def createTask (config : Config) (db : Database) (env : Env) (actor : Actor) (task : NewTask) :
    Result (List Event) := do
  ensure (!config.planOnlyIntake) (.validation
    ("plan_only_intake: direct task creation is disabled (ADR-0007); materialise a plan instead " ++
      "(MaterializePlan / daruma_plan materialisation)"))
  let title ← trimmedTitle task.title
  let task := normalizeExternalKey { task with title := title }
  match task.externalKey.bind fun key => (TaskRepo.findByExternalKey db key).map fun found => (key, found) with
  | some (key, existing) => pure (redeliveredCreateEvents (env.part 1) existing.id key task actor)
  | none => do
    let task := { task with id := some (task.id.getD (env.fresh 0)) }
    match config.tenantQuotas with
    | some quotas => TenantQuotaRepo.checkTaskQuota quotas db task.projectId
    | none => pure ()
    pure [.task (.taskCreated task)]

/-- A Git context in a patch is replaced by its normal form. -/
def normalizePatch (patch : TaskPatch) : Result TaskPatch :=
  match patch.gitContext with
  | some (some context) => do
    let context ← orValidation context.normalized
    pure { patch with gitContext := some (some context) }
  | _ => pure patch

def ensureNotPlanOwned (config : Config) (patch : TaskPatch) : Result Unit :=
  let planOwned := planOwnedPatchFields patch
  ensure (!config.planOnlyIntake || planOwned.isEmpty) (.validation
    (s!"plan_owned_immutable: field(s) {debugWords planOwned} are plan-owned (ADR-0007 Q1) and cannot be patched via update_task. " ++
      "Use amend_plan_task against the owning plan instead. Execution-owned fields are unaffected: " ++
      "status and priority have their own commands (set_status, set_priority), and due_at still patches through update_task"))

def ensurePatchStatusWrite (db : Database) (task : Task) (patch : TaskPatch) : Result Unit :=
  match patch.status with
  | none => .ok ()
  | some status => if status = task.status then .ok () else ensureDirectStatusWrite db task.id status

def updateTask (config : Config) (db : Database) (id : TaskId) (patch : TaskPatch) :
    Result (List Event) := do
  ensure (!patch.isEmpty) (.validation "update patch must not be empty")
  ensureNotPlanOwned config patch
  let patch ← normalizePatch patch
  ensure patch.pipelinePosition.isNone
    (.validation "pipeline_position is set only by advance_pipeline (ADR-0011)")
  let task ← requireTask db id
  ensurePatchStatusWrite db task patch
  pure [.task (.taskUpdated id patch)]

def setPriority (db : Database) (id : TaskId) (priority : Priority) : Result (List Event) := do
  let task ← requireTask db id
  if task.priority = priority then pure []
  else pure [.task (.taskPriorityChanged id task.priority priority)]

def completeTask (db : Database) (env : Env) (actor : Actor) (id : TaskId)
    (note : Option CompletionNote) : Building (List Event) := do
  let task ← lift (requireTask db id)
  lift (ensure (task.status ≠ .done) (.conflict "task already done"))
  lift (ensureDirectStatusWrite db id .done)
  let relations ← get
  let blockedBy := RelationEnforcement.listActiveBlockers relations db.tasks id
  lift (ensure blockedBy.isEmpty
    (.conflict s!"task_blocked: blocked by {blockedBy.length} task(s): {TaskId.debugList blockedBy}"))
  let completionNote := note.map fun note => { note with actor := some (ActorRef.fromActor actor) }
  let released ← releaseDownstream db id env.now
  pure ([.task (.taskStatusChanged id task.status .done),
    .task (.taskCompleted id env.now completionNote),
    .task (.taskClosed id actor env.now)] ++ released ++ closeTaskDocuments db id .done env.now)

def unlink (now : Timestamp) (relation : Relation) : Building (List Event) := do
  let relations ← get
  set (RelationRepo.delete relations relation.id)
  pure [.relation (.taskUnlinked relation.id relation.source relation.target relation.kind now)]

def deleteTask (db : Database) (env : Env) (id : TaskId) : Building (List Event) := do
  let _ ← lift (requireTask db id)
  lift (ensure (DocumentRepo.listLiveByTask db id).isEmpty
    (.validation "cannot delete a task anchoring live documents; archive or reanchor them first"))
  let relations ← get
  let toUnblock := RelationEnforcement.listDownstreamToUnblock relations db.tasks id
  let unlinked ← collect (unlink env.now) (RelationRepo.listByTask relations id)
  pure (unlinked ++ toUnblock.map (fun taskId => .task (.taskUnblocked taskId id env.now)) ++
    (PlanRepo.listPlansForTask db id).map (fun plan => .plan (.planTaskRemoved plan.id id)) ++
    [.task (.taskDeleted id)])

def transitionNote (comment : Option TransitionComment) : Result (Option (String × Option CommentKind)) :=
  match comment with
  | none => .ok none
  | some c => do
    let body := trim c.body
    ensure (body ≠ "") (.validation "transition comment body must not be empty")
    ensure (byteLength body ≤ TransitionComment.maxBodyBytes)
      (.validation s!"transition comment body must not exceed {TransitionComment.maxBodyBytes} bytes")
    pure (some (body, c.kind))

def setStatus (db : Database) (env : Env) (actor : Actor) (id : TaskId) (status : Status)
    (comment : Option TransitionComment) : Building (List Event) := do
  let task ← lift (requireTask db id)
  let note ← lift (transitionNote comment)
  let events ← emitStatusTransitionEvents db task status actor env.now
  match note with
  | none => pure events
  | some (body, kind) =>
    -- A transition to the same status has nothing to annotate.
    if events.isEmpty then pure events
    else pure (events ++
      commentEvents (Comment.fromNew ⟨none, id, body, none, kind⟩ (env.fresh 0) actor env.now))

def loadTasks (db : Database) (label : String) (ids : List TaskId) : Result (List Task) :=
  let missing := ids.filter fun id => (db.tasks.find? id).isNone
  if missing.isEmpty then .ok (ids.filterMap db.tasks.find?)
  else .error (.notFound s!"{label}: {missing.length} task(s) not found: {TaskId.debugList missing}")

/-- The tasks are read once, before the first of them is moved. -/
def bulkSetStatus (db : Database) (env : Env) (actor : Actor) (ids : List TaskId) (status : Status) :
    Building (List Event) := do
  let unique := dedupeIds ids
  lift (validateBulkCap unique.length)
  let tasks ← lift (loadTasks db "bulk_set_status" unique)
  collect (fun task => emitStatusTransitionEvents db task status actor env.now) tasks

/-- A position that a caller sets starts with an empty fan-in. -/
def validatePipelineTarget (position : PipelinePosition) : Result Unit := do
  orValidation position.validate
  ensure position.closed.isEmpty
    (.validation "pipeline_position.closed is filled only by close_pipeline_stage")

def pipelineTask (db : Database) (id : TaskId) : Result Task := do
  let task ← requireTask db id
  ensure (task.status ≠ .cancelled) (.conflict s!"pipeline_cancelled: task {id} is cancelled")
  pure task

def positionEvent (id : TaskId) (position : PipelinePosition) : Event :=
  .task (.taskUpdated id { TaskPatch.none with pipelinePosition := some position })

/-- Record a position and move to the status that follows from it. -/
def advancePipelineEvents (db : Database) (env : Env) (actor : Actor) (task : Task)
    (position : PipelinePosition) : Building (List Event) := do
  lift (validatePipelineTarget position)
  let moved ← statusTransitionEvents db task (canonicalStatus position) actor env.now
  pure (positionEvent task.id position :: moved)

def advancePipeline (db : Database) (env : Env) (actor : Actor) (id : TaskId)
    (position : PipelinePosition) : Building (List Event) := do
  lift (validatePipelineTarget position)
  let task ← lift (pipelineTask db id)
  let current := TaskRepo.pipelinePosition db id
  if current = some position then pure []
  else match current.bind fanInBlocks with
    | some blocked => lift (.error (.conflict blocked))
    | none => advancePipelineEvents db env actor task position

/-- Record that an instance closed its part of a stage. Only the report that
closes the barrier advances the pipeline. -/
def closePipelineStage (db : Database) (env : Env) (actor : Actor) (id : TaskId) (stageIndex : Nat)
    (instanceName : String) (next : Option PipelinePosition) : Building (List Event) := do
  let task ← lift (pipelineTask db id)
  let position ← lift (okOr (TaskRepo.pipelinePosition db id)
    (.conflict s!"pipeline_unmanaged: task {id} has no pipeline position"))
  lift (ensure (position.stageIndex = stageIndex || position.complete)
    (.conflict s!"stale_stage: task {id} is at stage {position.stageIndex} ({position.role}), not {stageIndex}"))
  lift (match next with
    | some target => validatePipelineTarget target
    | none => .ok ())
  let (fanIn, closed) ← lift (orConflict (position.closeInstance instanceName))
  match fanIn, next with
  | .repeated, _ => pure []
  | .closed, some target => do
    let advanced ← advancePipelineEvents db env actor task target
    pure (positionEvent id closed :: advanced)
  | _, _ => pure [positionEvent id closed]

/-- Give the children of a split an id and the project of their parent. -/
def prepareSubtasks (env : Env) (parent : Task) : Nat → List NewTask → List NewTask
  | _, [] => []
  | n, child :: rest =>
    { child with
      id := some (child.id.getD (env.fresh n))
      projectId := child.projectId.or parent.projectId } :: prepareSubtasks env parent (n + 1) rest

/-- The children join a plan of their parent after its members. -/
def amendPlanEvents (db : Database) (prepared : List NewTask) (plan : Plan) : List Event :=
  let base := nextPosition (PlanRepo.listTasksOrdered db plan.id)
  prepared.zipIdx.filterMap (fun entry => entry.1.id.map fun id =>
      Event.plan (.planTaskAdded plan.id id (base + entry.2) [])) ++
    [.plan (.planModifiedByHuman plan.id (activeRunForPlan db plan.id))]

/-- The keys of the children are taken as they come. -/
def splitTask (config : Config) (db : Database) (env : Env) (parent : TaskId) (subtasks : List NewTask) :
    Result (List Event) := do
  ensure (2 ≤ subtasks.length) (.validation "split requires at least 2 subtasks")
  let parentTask ← requireTask db parent
  let prepared := prepareSubtasks env parentTask 0 subtasks
  let created := Event.task (.taskSplitGenerated parent prepared) ::
    prepared.map fun child => Event.task (.taskCreated child)
  if config.planOnlyIntake then do
    let plans := PlanRepo.listPlansForTask db parent
    ensure (!plans.isEmpty) (.validation
      (s!"split_requires_plan: parent task {parent} is not in any plan (ADR-0007 Q3); free split outside a plan is disabled — " ++
        "materialise or amend a plan instead"))
    pure (created ++ plans.flatMap (amendPlanEvents db prepared))
  else pure created

end TaskCommands
end Daruma
