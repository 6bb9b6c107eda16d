import Daruma.Core.HandlerSteps
import Daruma.Library.Sequences

/-! What a command can record. Three commands take tasks in, and their batches are about
those tasks; a few commands record nothing about tasks, plans, runs and documents; only one
patches a status. Each event comes with what its builder has checked. -/
namespace Daruma

open Outcome List
open Stateful (Yields)
open PlanConcurrency (detectParentCycle)
open TaskRepo (pipelinePosition)

/-- A task that a command takes in. A key that is looked up is normalised first,
and a task that has it already stands for the new one. -/
structure Intake where
  id : TaskId
  status : Status
  externalKey : Option String
  lookedUp : Bool

namespace Intake

def isNew (db : Database) (intake : Intake) : Bool :=
  !intake.lookedUp || (intake.externalKey.bind (TaskRepo.findByExternalKey db)).isNone

/-- The input of a creation that stands for an intake. -/
structure CreatedAs (intake : Intake) (new : NewTask) : Prop where
  id : new.id = some intake.id
  status : new.status.getD .inbox = intake.status
  key : new.externalKey = intake.externalKey

end Intake

namespace Command

/-- What a command takes in, when its events are built in an environment. -/
def intakes (env : Env) : Command → List Intake
  | .task (.createTask new) =>
    [⟨new.id.getD (env.fresh 0), new.status.getD .inbox, normalizedKey new.externalKey, true⟩]
  | .task (.splitTask _ subtasks) => subtasks.mapIdx fun n child =>
    ⟨child.id.getD (env.fresh n), child.status.getD .inbox, child.externalKey, false⟩
  | .plan (.materializePlan _ batch _) => batch.mapIdx fun n new =>
    ⟨new.id.getD (((env.part 1).part n).fresh 0), new.status.getD .todo, normalizedKey new.externalKey, true⟩
  | _ => []

def takesIn : Command → Bool
  | .task (.createTask _) | .task (.splitTask ..) | .plan (.materializePlan ..) => true
  | _ => false

/-- The command records nothing about tasks, plans, runs and documents. -/
def isQuiet : Command → Bool
  | .claim _ | .handoff _ | .rule _ | .artifact _ | .run (.appendRunNote ..) => true
  | _ => false

def IsPlain (command : Command) : Prop := command.takesIn = false ∧ command.isQuiet = false

def patchesStatus (command : Command) (id : TaskId) (status : Option Status) : Prop :=
  match command with
  | .task (.updateTask taskId patch) => taskId = id ∧ patch.status = status
  | _ => False

def Brings (command : Command) (db : Database) (env : Env) (id : TaskId) : Prop :=
  ∃ intake ∈ command.intakes env, intake.isNew db = true ∧ intake.id = id

def Creates (command : Command) (db : Database) (env : Env) (new : NewTask) : Prop :=
  ∃ intake ∈ command.intakes env, intake.isNew db = true ∧ intake.CreatedAs new

end Command

def RunEvent.isNote : RunEvent → Bool
  | .runNoteAppended .. => true
  | _ => false

def ActiveRun (db : Database) (id : RunId) : Prop := ∃ run, db.runs.find? id = some run ∧ run.status = .active

def StepsClosed (db : Database) (id : RunId) : Prop :=
  ∀ step ∈ db.runSteps, step.runId = id → step.finishedAt.isSome = true

def RepeatsStep (db : Database) (runId : RunId) (taskId : TaskId) (outcome : RunOutcome) : Prop :=
  ∃ step, (RunRepo.listSteps db runId).reverse.find? (fun step => step.taskId = taskId) = some step ∧
    step.finishedAt.isSome = true ∧ step.outcome = some outcome

/-- What a builder checks before it records an event about a run. -/
def RunWarranted (db : Database) (env : Env) (command : Command) : RunEvent → Prop
  | .runStarted run => run.id = env.fresh 0 ∧ run.status = .active ∧
      ∃ planId agentId parentRunId, command = .run (.startRun planId agentId parentRunId)
  | .runStepStarted runId taskId _ => command = .run (.runStartStep runId taskId) ∧ ActiveRun db runId
  | .runStepFinished runId taskId outcome _ =>
    (command = .run (.runFinishStep runId taskId outcome) ∧ ¬RepeatsStep db runId taskId outcome) ∨
      (ActiveRun db runId ∧ ∃ planId, command = .plan (.removePlanTask planId taskId))
  | .runCompleted runId _ => command = .run (.completeRun runId) ∧ ActiveRun db runId ∧ StepsClosed db runId
  | .runFailed runId reason _ => command = .run (.failRun runId reason)
  | .runAborted runId reason _ => command = .run (.abortRun runId reason) ∨
      (ActiveRun db runId ∧ ∃ planId, command = .plan (.archivePlan planId) ∨ command = .plan (.deletePlan planId))
  | .runUnresponsive .. | .runStale .. => False
  | _ => True

namespace Command

def createsPlan : Command → Bool
  | .plan (.createPlan ..) | .plan (.materializePlan _ _ none) => true
  | _ => false

def pipelineTask : Command → Option TaskId
  | .task (.advancePipeline id _) | .task (.closePipelineStage id ..) => some id
  | _ => none

def places : Command → Bool
  | .task (.createTask _) | .task (.updateTask ..) | .task (.deleteTask _) | .task (.splitTask ..) => true
  | .plan (.createPlan ..) | .plan (.materializePlan ..) | .plan (.amendPlanTask ..) | .plan (.deletePlan _)
  | .plan (.addPlanTask ..) | .plan (.bulkAttachToPlan ..) | .plan (.removePlanTask ..) => true
  | .project (.createProject ..) | .project (.updateProject ..) => true
  | _ => false

end Command

def TaskCommand.moves : TaskCommand → Bool
  | .completeTask .. | .setStatus .. | .bulkSetStatus .. | .advancePipeline .. | .closePipelineStage .. => true
  | _ => false

def Command.frees : Command → Bool
  | .task (.deleteTask _) | .relation _ => true
  | .task command => command.moves
  | _ => false

/-- An event about a plan that leaves its row, its members and its runs alone. -/
def PlanEvent.isAside : PlanEvent → Bool
  | .planGoalChanged .. | .planTaskAmended .. | .planReordered .. | .planModifiedByHuman .. => true
  | _ => false

def ProjectEvent.writesProject : ProjectEvent → Bool
  | .projectCreated _ | .projectUpdated .. => true
  | _ => false

/-- An event that a command may record, with what its builder has checked. Builders link no
sources: those of a plan are linked ahead of them. -/
inductive MayRecord (db : Database) (env : Env) (links : Bool) : Command → Event → Prop where
  | comment {command : Command} {event : CommentEvent} : MayRecord db env links command (.comment event)
  | relation {command : Command} {event : RelationEvent} : MayRecord db env links command (.relation event)
  | created {command : Command} {new : NewTask} (hPlaces : command.places = true) (h : command.Creates db env new) :
    MayRecord db env links command (.task (.taskCreated new))
  | split {parent : TaskId} {subtasks prepared : List NewTask}
      (h : ∀ new ∈ prepared, (Command.task (.splitTask parent subtasks)).Creates db env new) :
    MayRecord db env links (.task (.splitTask parent subtasks)) (.task (.taskSplitGenerated parent prepared))
  | patched {id : TaskId} {given patch : TaskPatch} (hStatus : patch.status = given.status)
      (hPlace : patch.pipelinePosition = none) (hWrite : ∀ status, patch.status = some status →
        directStatusWriteAllowed (pipelinePosition db id) status = true ∨
          ∃ task, db.tasks.find? id = some task ∧ task.status = status) :
    MayRecord db env links (.task (.updateTask id given)) (.task (.taskUpdated id patch))
  | placed {command : TaskCommand} {id : TaskId} {position : PipelinePosition} (hMoves : command.moves = true)
      (h : (Command.task command).pipelineTask = some id) :
    MayRecord db env links (.task command) (TaskCommands.positionEvent id position)
  | inherited {command : Command} {id : TaskId} {context : GitContext} (h : command.Brings db env id) :
    MayRecord db env links command (.task (.taskUpdated id { TaskPatch.none with gitContext := some (some context) }))
  | amended {planId : PlanId} {id : TaskId} {patch : TaskPatch} (h : patch.status = none) :
    MayRecord db env links (.plan (.amendPlanTask planId id patch)) (.task (.taskUpdated id patch))
  | moved {command : TaskCommand} {task : Task} {toStatus : Status} (hMoves : command.moves = true)
      (hDirect : (Command.task command).pipelineTask = none →
        directStatusWriteAllowed (pipelinePosition db task.id) toStatus = true) :
    MayRecord db env links (.task command) (.task (.taskStatusChanged task.id task.status toStatus))
  | completed {id : TaskId} {given note : Option CompletionNote} {now : Timestamp}
      (hDirect : directStatusWriteAllowed (pipelinePosition db id) .done = true) :
    MayRecord db env links (.task (.completeTask id given)) (.task (.taskCompleted id now note))
  | reopened {command : TaskCommand} {id : TaskId} {actor : Actor} {now : Timestamp} (hMoves : command.moves = true) :
    MayRecord db env links (.task command) (.task (.taskReopened id actor now))
  | closed {command : TaskCommand} {id : TaskId} {actor : Actor} {now : Timestamp} (hMoves : command.moves = true) :
    MayRecord db env links (.task command) (.task (.taskClosed id actor now))
  | documentClosed {command : TaskCommand} {id : DocumentId} {fromStatus toStatus : DocumentStatus} {now : Timestamp}
      (hMoves : command.moves = true) (hClosed : toStatus = .frozen ∨ toStatus = .archived) :
    MayRecord db env links (.task command) (.document (.documentStatusChanged id fromStatus toStatus now))
  | unblocked {command : Command} {freed by' : TaskId} {now : Timestamp} (hFrees : command.frees = true) :
    MayRecord db env links command (.task (.taskUnblocked freed by' now))
  | prioritised {id : TaskId} {fromPriority toPriority : Priority} : MayRecord db env links
      (.task (.setPriority id toPriority)) (.task (.taskPriorityChanged id fromPriority toPriority))
  | deleted {id : TaskId} : MayRecord db env links (.task (.deleteTask id)) (.task (.taskDeleted id))
  | contested {planId : PlanId} {id : TaskId} {actors : List Actor} {reason : Option String} :
    MayRecord db env links (.plan (.removePlanTask planId id)) (.task (.taskContested id actors reason))
  | planCreated {command : Command} {plan : Plan} (hCreates : command.createsPlan = true) (hId : plan.id = env.fresh 0)
      (hParent : ∀ parent, plan.parentPlanId = some parent → detectParentCycle db plan.id parent = .ok ())
      (hStatus : plan.status = .draft ∨ plan.status = .active) (hArchived : plan.archivedAt = none) :
    MayRecord db env links command (.plan (.planCreated plan))
  | planUpdated {id : PlanId} {patch : PlanPatch} (hPlan : (db.plans.find? id).isSome = true)
      (hParent : ∀ parent, patch.parentPlanId = some (some parent) → detectParentCycle db id parent = .ok ()) :
    MayRecord db env links (.plan (.updatePlan id patch)) (.plan (.planUpdated id patch))
  | goalUpdated {id : PlanId} {goal : String} : MayRecord db env links (.plan (.setPlanGoal id goal))
      (.plan (.planUpdated id ⟨none, none, some goal, none, none⟩))
  | aside {command : PlanCommand} {event : PlanEvent} (h : event.isAside = true) : MayRecord db env links (.plan command) (.plan event)
  | touched {parent : TaskId} {subtasks : List NewTask} {planId : PlanId} {runId : Option RunId} :
    MayRecord db env links (.task (.splitTask parent subtasks)) (.plan (.planModifiedByHuman planId runId))
  | joined {command : Command} {planId : PlanId} {id : TaskId} {place : Nat} {dependsOn : List TaskId}
      (hPlaces : command.places = true) (hLoud : command.isQuiet = false) (h : command.takesIn = true →
        command.Brings db env id ∨ ∃ task, db.tasks.find? id = some task ∧ task.projectId.isSome = true) :
    MayRecord db env links command (.plan (.planTaskAdded planId id place dependsOn))
  | left {command : Command} {planId : PlanId} {id : TaskId}
      (h : command = .task (.deleteTask id) ∨ command = .plan (.removePlanTask planId id)) :
    MayRecord db env links command (.plan (.planTaskRemoved planId id))
  | planReopened {plan : Plan} {new : NewPlan} {tasks : List NewTask} {id : PlanId} (hPlan : db.plans.find? id = some plan)
      (hStatus : plan.status = .completed) :
    MayRecord db env links (.plan (.materializePlan new tasks (some id))) (.plan (.planStatusChanged id .completed .active))
  | planMoved {plan : Plan} {id : PlanId} {status : PlanStatus} {force : Bool} {reason : Option String}
      (hPlan : db.plans.find? id = some plan) : MayRecord db env links (.plan (.setPlanStatus id status force reason))
        (.plan (.planStatusChanged id plan.status status))
  | planArchived {id : PlanId} {now : Timestamp} : MayRecord db env links (.plan (.archivePlan id)) (.plan (.planArchived id now))
  | planDeleted {id : PlanId} {now : Timestamp} : MayRecord db env links (.plan (.deletePlan id)) (.plan (.planDeleted id now))
  | run {command : RunCommand} {event : RunEvent} (hNote : event.isNote = (Command.run command).isQuiet)
      (h : RunWarranted db env (.run command) event) : MayRecord db env links (.run command) (.run event)
  | planRun {command : PlanCommand} {event : RunEvent} (hNote : event.isNote = false)
      (h : RunWarranted db env (.plan command) event) : MayRecord db env links (.plan command) (.run event)
  | source {command : PlanCommand} {source : SourceNode} (h : links = true) : MayRecord db env links (.plan command) (.plan (.sourceUpserted source))
  | sourceSet {command : PlanCommand} {id : PlanId} {sourceRef : String} {now : Timestamp} (h : links = true) :
    MayRecord db env links (.plan command) (.plan (.planSourceSet id sourceRef now))
  | project {command : ProjectCommand} {event : ProjectEvent}
      (h : event.writesProject = true → (Command.project command).places = true) :
    MayRecord db env links (.project command) (.project event)
  | claim {command : ClaimCommand} {event : ClaimEvent} : MayRecord db env links (.claim command) (.claim event)
  | lease {command : LeaseCommand} {event : LeaseEvent} : MayRecord db env links (.lease command) (.lease event)
  | session {command : SessionCommand} {event : SessionEvent} : MayRecord db env links (.session command) (.session event)
  | workUnit {command : WorkUnitCommand} {event : WorkUnitEvent} : MayRecord db env links (.workUnit command) (.workUnit event)
  | handoff {command : HandoffCommand} {event : HandoffEvent} : MayRecord db env links (.handoff command) (.handoff event)
  | document {command : DocumentCommand} {event : DocumentEvent} : MayRecord db env links (.document command) (.document event)
  | rule {command : RuleCommand} {event : RuleEvent} : MayRecord db env links (.rule command) (.rule event)
  | evidence {command : Command} {event : EvidenceEvent} : MayRecord db env links command (.evidence event)
  | artifact {command : ArtifactCommand} {event : ArtifactEvent} : MayRecord db env links (.artifact command) (.artifact event)

abbrev AllRecords (db : Database) (env : Env) (links : Bool) (command : Command) (events : List Event) : Prop :=
  Everywhere (MayRecord db env links command) events

theorem TaskCommand.frees_of_moves {command : TaskCommand} (h : command.moves = true) : (Command.task command).frees = true := by
  cases command with
  | deleteTask => rfl
  | _ => exact h

theorem Command.plain_of_frees {command : Command} (h : command.frees = true) : command.IsPlain := by
  cases command with
  | relation => exact ⟨rfl, rfl⟩
  | task command =>
    cases command with
    | createTask | splitTask => cases h
    | _ => exact ⟨rfl, rfl⟩
  | _ => cases h

theorem TaskCommand.plain_of_moves {command : TaskCommand} (h : command.moves = true) : (Command.task command).IsPlain :=
  Command.plain_of_frees (frees_of_moves h)

theorem commentEvents_records {db : Database} {env : Env} {links : Bool} {command : Command} (comment : Comment) :
    AllRecords db env links command (commentEvents comment) :=
  .cons .comment (.cons .comment .nil)

namespace TaskCommands

variable {config : Config} {db : Database} {env : Env} {links : Bool} {actor : Actor} {command : TaskCommand}

variable {id : TaskId} {task : Task} {toStatus : Status} {now : Timestamp}

section

variable {P : Event → Prop}

theorem closureEvents_rule {fromStatus : Status} (hReopened : P (.task (.taskReopened id actor now)))
    (hClosed : P (.task (.taskClosed id actor now))) : Everywhere P (closureEvents id fromStatus toStatus actor now) := by
  unfold closureEvents
  split
  · exact .cons hReopened .nil
  · split
    · exact .cons hClosed .nil
    · exact .nil

theorem closeTaskDocuments_rule (hDocuments : ∀ document ∈ DocumentRepo.listLiveByTask db id, ∀ status,
    status = .frozen ∨ status = .archived → P (.document (.documentStatusChanged document.id document.status status now))) :
    Everywhere P (closeTaskDocuments db id toStatus now) := by
  unfold closeTaskDocuments
  dsimp only
  split
  · exact forall_mem_map.mpr fun document hListed => hDocuments document hListed _ (.inl rfl)
  · exact forall_mem_map.mpr fun document hListed => hDocuments document hListed _ (.inr rfl)
  · exact .nil

theorem releaseDownstream_rule (hUnblocked : ∀ freed, P (.task (.taskUnblocked freed id now)))
    (hRelabelled : ∀ edge source target, P (.relation (.taskRelationKindChanged edge source target .blocks .wasBlocking now))) :
    Yields (releaseDownstream db id now) (Everywhere P) := by
  have hRelabel : ∀ relation, Yields (relabelBlocks now relation) (Everywhere P) :=
    fun _ => .andThen fun _ => .andThen fun _ => .andThen fun _ => .pure (.cons (hRelabelled _ _ _) .nil)
  exact .andThen fun _ => .bind (.collect fun relation _ => hRelabel relation) fun _ hAll =>
    .pure (.append (.map fun _ => hUnblocked _) hAll)

theorem statusTransitionEvents_rule {post : List Event → Prop} (hStays : task.status = toStatus → post [])
    (hMoves : ∀ rest, Everywhere P rest → post (.task (.taskStatusChanged task.id task.status toStatus) :: rest))
    (hReopened : P (.task (.taskReopened task.id actor now))) (hClosed : P (.task (.taskClosed task.id actor now)))
    (hUnblocked : ∀ freed, P (.task (.taskUnblocked freed task.id now)))
    (hRelabelled : ∀ edge source target, P (.relation (.taskRelationKindChanged edge source target .blocks .wasBlocking now)))
    (hDocuments : ∀ document ∈ DocumentRepo.listLiveByTask db task.id, ∀ status, status = .frozen ∨ status = .archived →
      P (.document (.documentStatusChanged document.id document.status status now))) :
    Yields (statusTransitionEvents db task toStatus actor now) post := by
  refine .ite (fun hSame => .pure (hStays hSame)) fun _ => .andThen fun relations => .andThen fun _ => ?_
  have hAll : ∀ released, Everywhere P released → post ([.task (.taskStatusChanged task.id task.status toStatus)] ++
      closureEvents task.id task.status toStatus actor now ++ released ++ closeTaskDocuments db task.id toStatus now) :=
    fun released hReleased => hMoves _ (.append (.append (closureEvents_rule hReopened hClosed) hReleased)
      (closeTaskDocuments_rule hDocuments))
  exact .ite (fun _ => .bind (releaseDownstream_rule hUnblocked hRelabelled) fun _ hReleased => .pure (hAll _ hReleased))
    fun _ => .bind (.pure .nil) fun _ hReleased => .pure (hAll _ hReleased)

end

theorem requireTask_row : Outcome.Yields (requireTask db id) fun task => task.id = id ∧ db.tasks.find? task.id = some task := by
  intro task h
  have hFound := okOr_eq_ok.mp h
  have hId := KeyedTable.key_of_find? hFound
  exact ⟨hId, hId.symm ▸ hFound⟩

theorem ensureDirectStatusWrite_allowed : Outcome.Yields (ensureDirectStatusWrite db id toStatus)
    fun _ => directStatusWriteAllowed (pipelinePosition db id) toStatus = true := by
  unfold ensureDirectStatusWrite
  split
  · rename_i hNone
    rw [hNone]
    exact .ok rfl
  · rename_i position hPosition
    rw [hPosition]
    exact .ite (fun hAllowed => .ok hAllowed) fun _ => .error _

theorem ensurePatchStatusWrite_allowed {patch : TaskPatch} : Outcome.Yields (ensurePatchStatusWrite db task patch)
    fun _ => ∀ status, patch.status = some status →
      directStatusWriteAllowed (pipelinePosition db task.id) status = true ∨ task.status = status := by
  unfold ensurePatchStatusWrite
  split
  · rename_i hNone
    refine .ok fun status hStatus => ?_
    cases hNone.symm.trans hStatus
  · rename_i given hGiven
    refine .ite (fun hSame => .ok fun status hStatus => ?_) fun _ =>
      .mono ensureDirectStatusWrite_allowed fun _ hAllowed status hStatus => ?_
    · cases hGiven.symm.trans hStatus
      exact .inr hSame.symm
    · cases hGiven.symm.trans hStatus
      exact .inl hAllowed

theorem statusTransitionEvents_records (hMoves : command.moves = true) (hDirect : (Command.task command).pipelineTask = none →
    directStatusWriteAllowed (pipelinePosition db task.id) toStatus = true) :
    Yields (statusTransitionEvents db task toStatus actor now) (AllRecords db env links (.task command)) :=
  statusTransitionEvents_rule (fun _ => .nil) (fun _ hRest => .cons (.moved hMoves hDirect) hRest) (.reopened hMoves)
    (.closed hMoves) (fun _ => .unblocked (TaskCommand.frees_of_moves hMoves)) (fun _ _ _ => .relation)
    fun _ _ _ hClosed => .documentClosed hMoves hClosed

theorem emitStatusTransitionEvents_records (hMoves : command.moves = true) :
    Yields (emitStatusTransitionEvents db task toStatus actor now) (AllRecords db env links (.task command)) :=
  .bind (.lift ensureDirectStatusWrite_allowed) fun _ hAllowed => statusTransitionEvents_records hMoves fun _ => hAllowed

theorem advancePipelineEvents_records {position : PipelinePosition} (hMoves : command.moves = true)
    (hPipeline : (Command.task command).pipelineTask = some task.id) :
    Yields (advancePipelineEvents db env actor task position) (AllRecords db env links (.task command)) := by
  have hMoved : Yields (statusTransitionEvents db task (canonicalStatus position) actor env.now)
      (AllRecords db env links (.task command)) :=
    statusTransitionEvents_records hMoves fun hNone => by cases hPipeline.symm.trans hNone
  exact .andThen fun _ => .bind hMoved fun _ hMoved => .pure (.cons (.placed hMoves hPipeline) hMoved)

theorem pipelineTask_row : Outcome.Yields (TaskCommands.pipelineTask db id)
    fun task => task.id = id ∧ db.tasks.find? task.id = some task :=
  .bind requireTask_row fun _ hRow => .andThen fun _ _ => .pure hRow

variable {new : NewTask}

theorem createTask_records : Outcome.Yields (createTask config db env actor new) (AllRecords db env links (.task (.createTask new))) := by
  refine .andThen fun _ _ => .andThen fun title _ => ?_
  dsimp only
  split
  · exact .pure (commentEvents_records _)
  · rename_i hFresh
    have hCreated : MayRecord db env links (.task (.createTask new)) (.task (.taskCreated
        { normalizeExternalKey { new with title := title } with id := some (new.id.getD (env.fresh 0)) })) := by
      refine .created rfl ⟨_, mem_singleton_self _, ?_, rfl, rfl, rfl⟩
      have hUnknown : (normalizedKey new.externalKey).bind (TaskRepo.findByExternalKey db) = none := by
        change (normalizedKey new.externalKey).bind _ = none at hFresh
        cases hKey : normalizedKey new.externalKey with
        | none => rfl
        | some key =>
          rw [hKey] at hFresh
          exact Option.map_eq_none_iff.mp hFresh
      simp [Intake.isNew, hUnknown]
    split
    · exact .andThen fun _ _ => .pure (.cons hCreated .nil)
    · exact .pure (.cons hCreated .nil)

theorem normalizePatch_status {patch : TaskPatch} :
    Outcome.Yields (normalizePatch patch) fun normal => normal.status = patch.status := by
  unfold normalizePatch
  split
  · exact .andThen fun _ _ => .pure rfl
  · exact .pure rfl

theorem updateTask_records {patch : TaskPatch} :
    Outcome.Yields (updateTask config db id patch) (AllRecords db env links (.task (.updateTask id patch))) := by
  refine .andThen fun _ _ => .andThen fun _ _ => .bind normalizePatch_status fun normal hStatus => .andThen
    fun _ hUnplaced => .bind requireTask_row fun task ⟨hId, hFound⟩ => .bind ensurePatchStatusWrite_allowed
      fun _ hAllowed => .pure (.cons (.patched hStatus ?_ fun status hWrite => ?_) .nil)
  · exact Option.isNone_iff_eq_none.mp (ensure_eq_ok.mp hUnplaced)
  · subst hId
    exact (hAllowed status hWrite).imp_right fun hSame => ⟨task, hFound, hSame⟩

theorem creates_brings {command : Command} (h : command.Creates db env new)
    (hId : new.id = some id) : command.Brings db env id := by
  obtain ⟨intake, hMem, hNew, hCreated⟩ := h
  exact ⟨intake, hMem, hNew, Option.some.inj (hCreated.id.symm.trans hId)⟩

theorem prepareSubtasks_created {parent : Task} {subtasks : List NewTask} {n : Nat}
    (h : new ∈ prepareSubtasks env parent n subtasks) :
    ∃ intake ∈ subtasks.mapIdx fun k child => (⟨child.id.getD (env.fresh (n + k)),
      child.status.getD .inbox, child.externalKey, false⟩ : Intake), intake.CreatedAs new := by
  induction subtasks generalizing n with
  | nil => exact absurd h not_mem_nil
  | cons child rest ih =>
    rw [mapIdx_cons]
    rcases mem_cons.mp h with rfl | hRest
    · exact ⟨_, mem_cons_self, rfl, rfl, rfl⟩
    · obtain ⟨intake, hMem, hCreated⟩ := ih hRest
      refine ⟨intake, mem_cons_of_mem _ ?_, hCreated⟩
      simpa only [Nat.add_assoc, Nat.add_comm 1] using hMem

theorem splitTask_records {parent : TaskId} {subtasks : List NewTask} :
    Outcome.Yields (splitTask config db env parent subtasks) (AllRecords db env links (.task (.splitTask parent subtasks))) := by
  refine .andThen fun _ _ => .andThen fun parentTask _ => ?_
  have hCreates : ∀ new ∈ prepareSubtasks env parentTask 0 subtasks,
      (Command.task (.splitTask parent subtasks)).Creates db env new := by
    intro new hNew
    obtain ⟨intake, hMem, hCreated⟩ := prepareSubtasks_created hNew
    simp only [Nat.zero_add] at hMem
    have hIsNew : intake.isNew db = true := by
      obtain ⟨k, _, rfl⟩ := mem_mapIdx.mp hMem
      rfl
    exact ⟨intake, hMem, hIsNew, hCreated⟩
  have hCreated : AllRecords db env links (.task (.splitTask parent subtasks))
      (.task (.taskSplitGenerated parent (prepareSubtasks env parentTask 0 subtasks)) ::
        (prepareSubtasks env parentTask 0 subtasks).map fun child => .task (.taskCreated child)) :=
    .cons (.split hCreates) (forall_mem_map.mpr fun new hNew => .created rfl (hCreates new hNew))
  refine .ite (fun _ => .andThen fun _ _ => .pure (.append hCreated (.flatMap fun plan => ?_)))
    fun _ => .pure hCreated
  refine .append (fun event hEvent => ?_) (.cons .touched .nil)
  obtain ⟨⟨child, n⟩, hMem, hEvent⟩ := mem_filterMap.mp hEvent
  obtain ⟨id, hId, rfl⟩ := Option.map_eq_some_iff.mp hEvent
  exact .joined rfl rfl fun _ => .inl (creates_brings (hCreates child (fst_mem_of_mem_zipIdx hMem)) hId)

theorem buildEvents_records : Yields (buildEvents config db env actor command) (AllRecords db env links (.task command)) := by
  cases command with
  | createTask task => exact .lift createTask_records
  | updateTask id patch => exact .lift updateTask_records
  | completeTask id completionNote =>
    have hRelease : Yields (releaseDownstream db id env.now) (AllRecords db env links (.task (.completeTask id completionNote))) :=
      releaseDownstream_rule (fun _ => .unblocked rfl) fun _ _ _ => .relation
    refine .bind (.lift requireTask_row) fun task ⟨hId, _⟩ => .andThen fun _ => .bind (.lift ensureDirectStatusWrite_allowed)
      fun _ hAllowed => .andThen fun relations => .andThen fun _ => .bind hRelease fun released hReleased => .pure ?_
    subst hId
    exact .append (.append (.cons (.moved rfl fun _ => hAllowed) (.cons (.completed hAllowed) (.cons (.closed rfl) .nil)))
      hReleased) (closeTaskDocuments_rule fun _ _ _ => .documentClosed rfl)
  | deleteTask id =>
    have hUnlink : ∀ relation, Yields (unlink env.now relation) (AllRecords db env links (.task (.deleteTask id))) :=
      fun _ => .andThen fun _ => .andThen fun _ => .pure (.cons .relation .nil)
    exact .andThen fun _ => .andThen fun _ => .andThen fun relations => .bind (.collect fun relation _ => hUnlink relation)
      fun unlinked hUnlinked => .pure (.append (.append (.append hUnlinked (.map fun _ => .unblocked rfl))
        (.map fun _ => .left (.inl rfl))) (.cons .deleted .nil))
  | setStatus id status force reason comment =>
    have hMoves : ∀ task, Yields (emitStatusTransitionEvents db task status actor env.now)
        (AllRecords db env links (.task (.setStatus id status force reason comment))) :=
      fun _ => emitStatusTransitionEvents_records rfl
    refine .andThen fun task => .andThen fun note => .bind (hMoves task) fun events hEvents => ?_
    cases note with
    | none => exact .pure hEvents
    | some body => exact .ite (fun _ => .pure hEvents) fun _ => .pure (.append hEvents (commentEvents_records _))
  | setPriority id priority =>
    exact .lift (.andThen fun _ _ => .ite (fun _ => .pure .nil) fun _ => .pure (.cons .prioritised .nil))
  | advancePipeline id position =>
    refine .andThen fun _ => .bind (.lift pipelineTask_row) fun task ⟨hId, _⟩ => .ite (fun _ => .pure .nil) fun _ => ?_
    split
    · exact .lift (.error _)
    · exact advancePipelineEvents_records rfl (congrArg some hId.symm)
  | closePipelineStage id stageIndex instanceName next =>
    refine .bind (.lift pipelineTask_row) fun task ⟨hId, _⟩ => .andThen fun position => .andThen fun _ => .andThen fun _ =>
      .andThen fun closed => ?_
    have hMoves : ∀ target, Yields (advancePipelineEvents db env actor task target) (AllRecords db env links
        (.task (.closePipelineStage id stageIndex instanceName next))) :=
      fun _ => advancePipelineEvents_records rfl (congrArg some hId.symm)
    obtain ⟨fanIn, closed⟩ := closed
    dsimp only
    split
    · exact .pure .nil
    · exact .bind (hMoves _) fun _ hMoved => .pure (.cons (.placed rfl rfl) hMoved)
    · exact .pure (.cons (.placed rfl rfl) .nil)
  | bulkSetStatus ids status =>
    exact .andThen fun _ => .andThen fun _ => .collect fun _ _ => emitStatusTransitionEvents_records rfl
  | splitTask parent subtasks => exact .lift splitTask_records

end TaskCommands

theorem RelationCommands.buildEvents_records {db : Database} {env : Env} {links : Bool} {actor : Actor} {command : RelationCommand} :
    Yields (buildEvents db env actor command) (AllRecords db env links (.relation command)) := by
  cases command with
  | linkTasks => exact .andThen fun _ => .pure (.map fun _ => .relation)
  | unlinkTasks id =>
    refine .andThen fun relations => .andThen fun relation => .andThen fun _ => .pure (.cons .relation ?_)
    split
    · exact .cons (.unblocked rfl) .nil
    · exact .nil

end Daruma
