import Daruma.Core.ClosedPlans
import Daruma.Core.QuietCommands

/-! The commands of a rollback: what ordinary commands keep of a state, when each of the
commands is accepted, and what it then writes. -/
namespace Daruma

open KeyedTable
open Handler (handleWithRunOwner MintsNew patch_runs handle_unbuilt)
open RelationEnforcement (notDone listActiveBlockers)

open Outcome

inductive VersionSnapshot where
  | task (task : Task)
  | document (document : Document)
  | other (entityType : String)

structure HistoryVersion where
  id : String
  after : Option VersionSnapshot

/-- What the token of the request may write. -/
structure RollbackRights where
  tasks : Bool
  documents : Bool
  plans : Bool

namespace Rollback

/-- A field of a patch: the wanted value, where it differs. -/
def restoring {Value : Type} [DecidableEq Value] (current target : Value) : Option Value :=
  if current ≠ target then some target else none

def planOwnedPatch (current target : Task) : TaskPatch := { TaskPatch.none with
  title := restoring current.title target.title
  description := restoring current.description target.description
  projectId := restoring current.projectId target.projectId }

def executionPatch (current target : Task) : TaskPatch := { TaskPatch.none with
  status := restoring current.status target.status
  priority := restoring current.priority target.priority
  triageState := restoring current.triageState target.triageState
  dueAt := restoring current.dueAt target.dueAt
  gitContext := restoring current.gitContext target.gitContext }

def requireRight (held : Bool) (name : String) : Result Unit :=
  ensure held (.forbidden s!"token is missing capability: {name}")

/-- The plan-owned fields of a member go through the plan that owns it. -/
def planOwnedCommands (db : Database) (rights : RollbackRights) (id : TaskId) (patch : TaskPatch) : Result (List Command) :=
  if patch.isEmpty then .ok []
  else match (PlanRepo.listPlansForTask db id).head? with
    | some plan => do
      requireRight rights.plans "plan:write"
      pure [.plan (.amendPlanTask plan.id id patch)]
    | none => .ok [.task (.updateTask id patch)]

def executionCommands (id : TaskId) (patch : TaskPatch) : List Command :=
  if patch.isEmpty then [] else [.task (.updateTask id patch)]

/-- Only the fields that differ are restored. -/
def rollbackTaskCommands (db : Database) (rights : RollbackRights) (target : Task) : Result (List Command) := do
  let current ← okOr (db.tasks.find? target.id) (.notFound s!"task {target.id}")
  let first ← planOwnedCommands db rights target.id (planOwnedPatch current target)
  pure (first ++ executionCommands target.id (executionPatch current target))

def rollbackDocumentCommands (db : Database) (target : Document) : Result (List Command) := do
  let current ← okOr (db.documents.find? target.id) (.notFound s!"document {target.id}")
  pure ((if current.title ≠ target.title then [.document (.renameDocument target.id target.title)] else []) ++
    if current.content ≠ target.content then [.document (.replaceDocumentContent target.id target.content)] else [])

def rollbackCommands (db : Database) (rights : RollbackRights) (version : HistoryVersion) : Result (List Command) := do
  match ← okOr version.after (.validation s!"version {version.id} has no after snapshot to roll back to") with
  | .task target => do
    requireRight rights.tasks "task:write"
    rollbackTaskCommands db rights target
  | .document target => do
    requireRight rights.documents "document:write"
    rollbackDocumentCommands db target
  | .other entityType => .error (.validation s!"unknown version entity_type: {entityType}")

/-- Dispatch commands one after the other. The first refusal ends it; what was
dispatched before it stays. -/
def dispatchAll (config : Config) (env : Env) (actor : Actor) : Nat → List Command → Serving Unit
  | _, [] => pure ()
  | n, command :: rest => do
    let _ ← handleWithRunOwner config (env.part n) .internal command actor
    dispatchAll config env actor (n + 1) rest

def rollbackHistoryVersion (config : Config) (env : Env) (rights : RollbackRights) (actor : Actor)
    (version : HistoryVersion) : Serving Unit := do
  let db ← Stateful.get
  let commands ← Stateful.lift (rollbackCommands db rights version)
  dispatchAll config env actor 0 commands

end Rollback

/-- What ordinary commands keep of a task: its blockers are done before it, it has a
time of completion while it is closed, and then neither a live document nor a claim. -/
structure Database.KeepsTask (db : Database) (task : Task) : Prop where
  unblocked : task.status = .done → listActiveBlockers db.relations db.tasks task.id = []
  completed : task.completedAt.isSome = task.status.isTerminal
  documents : task.status.isTerminal = true → DocumentRepo.listLiveByTask db task.id = []
  claims : task.status.isTerminal = true → ∀ claim ∈ db.agentClaims.rows, claim.taskId ≠ task.id

def Database.Keeps (db : Database) : Prop := ∀ task ∈ db.tasks.rows, db.KeepsTask task

def Database.withStatus (db : Database) (id : TaskId) (status : Status) : Database :=
  { db with tasks := db.tasks.modify id fun task => { task with status := status } }

theorem Database.Keeps.of_same {db db' : Database} (h : db.Keeps)
    (hTasks : ∀ id, (db'.tasks.find? id).map (fun task => (task.status, task.completedAt)) =
      (db.tasks.find? id).map fun task => (task.status, task.completedAt))
    (hDocuments : ∀ id, (db'.documents.find? id).map (fun doc => (doc.taskId, doc.status)) =
      (db.documents.find? id).map fun doc => (doc.taskId, doc.status))
    (hRelations : db'.relations = db.relations) (hClaims : db'.agentClaims = db.agentClaims) : db'.Keeps := by
  intro task hMem
  have hFound : db'.tasks.find? task.id = some task := find?_of_mem hMem
  obtain ⟨old, hOld, hSame⟩ : ∃ old, db.tasks.find? task.id = some old ∧
      (old.status, old.completedAt) = (task.status, task.completedAt) := by
    have hTask := hTasks task.id
    rw [hFound, Option.map_some] at hTask
    exact Option.map_eq_some_iff.mp hTask.symm
  obtain ⟨hStatus, hCompleted⟩ := Prod.mk.inj hSame
  have hId : old.id = task.id := key_of_find? hOld
  obtain ⟨hUnblocked, hTime, hLive, hClosed⟩ := h old (mem_of_find? hOld)
  rw [hStatus] at hUnblocked hTime hLive hClosed
  rw [hId] at hUnblocked hLive hClosed
  rw [hCompleted] at hTime
  have hNotDone : ∀ id, notDone db'.tasks id = notDone db.tasks id := by
    intro id
    have hRow := hTasks id
    unfold notDone
    cases hNew : db'.tasks.find? id with
    | none =>
      rw [hNew, Option.map_none] at hRow
      rw [Option.map_eq_none_iff.mp hRow.symm]
    | some row =>
      rw [hNew, Option.map_some] at hRow
      obtain ⟨before, hBefore, hAlike⟩ := Option.map_eq_some_iff.mp hRow.symm
      rw [hBefore]
      dsimp only
      rw [(Prod.mk.inj hAlike).1]
  refine ⟨fun hDone => ?_, hTime, fun hTerminal => ?_, fun hTerminal => ?_⟩
  · unfold listActiveBlockers
    rw [hRelations, funext hNotDone]
    exact hUnblocked hDone
  · refine List.eq_nil_iff_forall_not_mem.mpr fun doc hDoc => ?_
    obtain ⟨hStored, hTask, hIsLive⟩ := DocumentRepo.mem_listLiveByTask.mp hDoc
    have hRow := hDocuments doc.id
    rw [find?_of_mem hStored, Option.map_some] at hRow
    obtain ⟨before, hBefore, hAlike⟩ := Option.map_eq_some_iff.mp hRow.symm
    obtain ⟨hTaskId, hDocStatus⟩ := Prod.mk.inj hAlike
    have hListed : before ∈ DocumentRepo.listLiveByTask db task.id :=
      DocumentRepo.mem_listLiveByTask.mpr ⟨mem_of_find? hBefore, hTaskId.trans hTask, hDocStatus ▸ hIsLive⟩
    rw [hLive hTerminal] at hListed
    cases hListed
  · rw [hClaims]
    exact hClosed hTerminal

namespace TaskCommands

variable {config : Config} {db : Database} {id : TaskId} {patch normal : TaskPatch} {task : Task}

theorem updateTask_eq (hNonempty : patch.isEmpty = false) (hOwned : ensureNotPlanOwned config patch = .ok ())
    (hNormal : normalizePatch patch = .ok normal) (hPosition : normal.pipelinePosition = none)
    (hRow : db.tasks.find? id = some task) : updateTask config db id patch = (do
      ensurePatchStatusWrite db task normal
      pure [.task (.taskUpdated id normal)]) := by
  unfold updateTask
  rw [hNonempty, hOwned, hNormal]
  change (do
    Outcome.ensure normal.pipelinePosition.isNone _
    let task ← requireTask db id
    ensurePatchStatusWrite db task normal
    pure [.task (.taskUpdated id normal)] : Result (List Event)) = _
  rw [hPosition]
  unfold requireTask
  rw [hRow]
  rfl

end TaskCommands

namespace PlanCommands

/-- The batch of an amendment to a member. -/
theorem amendPlanTask_ok {db : Database} {planId : PlanId} {taskId : TaskId} {patch : TaskPatch} {plan : Plan} {task : Task}
    (hNonempty : patch.isEmpty = false)
    (hExecution : (patch.status.isNone && patch.priority.isNone && patch.triageState.isNone && patch.dueAt.isNone) = true)
    (hFields : (planOwnedPatchFields patch).isEmpty = false) (hPlan : db.plans.find? planId = some plan)
    (hTask : db.tasks.find? taskId = some task)
    (hMember : ((PlanRepo.listTasksOrdered db planId).any fun member => member.taskId = taskId) = true) :
    amendPlanTask db planId taskId patch = .ok [.plan (.planTaskAmended planId taskId patch), .task (.taskUpdated taskId patch),
      .plan (.planModifiedByHuman planId (activeRunForPlan db planId))] := by
  unfold amendPlanTask requirePlan requireTask
  rw [hNonempty, hExecution, hFields, hPlan, hTask, hMember]
  rfl

end PlanCommands

namespace Rollback

variable {config : Config} {env : Env} {rights : RollbackRights} {actor : Actor} {db after : Database} {current target : Task}
  {id : TaskId}

@[simp] theorem restoring_getD {Value : Type} [DecidableEq Value] (current target : Value) :
    (restoring current target).getD current = target := by
  unfold restoring
  by_cases hSame : current = target
  · rw [if_neg (not_not.mpr hSame)]
    exact hSame
  · rw [if_pos hSame]
    rfl

theorem restoring_eq_none {Value : Type} [DecidableEq Value] {current target : Value} :
    restoring current target = none ↔ current = target := by
  unfold restoring
  by_cases hSame : current = target
  · simp [hSame]
  · simp [hSame]

theorem planOwnedPatch_isEmpty : (planOwnedPatch current target).isEmpty = true ↔
    current.title = target.title ∧ current.description = target.description ∧ current.projectId = target.projectId := by
  simp [planOwnedPatch, TaskPatch.isEmpty, TaskPatch.none, Option.isNone_iff_eq_none, restoring_eq_none, and_assoc]

theorem executionPatch_isEmpty : (executionPatch current target).isEmpty = true ↔ current.status = target.status ∧
    current.priority = target.priority ∧ current.triageState = target.triageState ∧ current.dueAt = target.dueAt ∧
      current.gitContext = target.gitContext := by
  simp [executionPatch, TaskPatch.isEmpty, TaskPatch.none, Option.isNone_iff_eq_none, restoring_eq_none, and_assoc]

theorem onContent_both (git : Option (Option GitContext)) :
    ({ executionPatch current target with gitContext := git } : TaskPatch).onContent
        ((planOwnedPatch current target).onContent current.content) =
      { target.content with gitContext := git.getD current.gitContext } := by
  simp [TaskPatch.onContent, executionPatch, planOwnedPatch, TaskPatch.none, Task.content]

theorem onContent_planOwned_empty (h : (planOwnedPatch current target).isEmpty = true) :
    (planOwnedPatch current target).onContent current.content = current.content := by
  obtain ⟨hTitle, hDescription, hProject⟩ := planOwnedPatch_isEmpty.mp h
  simp [TaskPatch.onContent, planOwnedPatch, TaskPatch.none, Task.content, restoring, hTitle, hDescription, hProject]

theorem onContent_planOwned_ne (h : (planOwnedPatch current target).isEmpty = false) :
    (planOwnedPatch current target).onContent current.content ≠ current.content := by
  intro hSame
  have hEmpty : (planOwnedPatch current target).isEmpty = true := by
    simp only [TaskPatch.onContent, planOwnedPatch, TaskPatch.none, Task.content, TaskContent.mk.injEq, restoring_getD,
      Option.getD_none, and_true] at hSame
    exact planOwnedPatch_isEmpty.mpr ⟨hSame.1.symm, hSame.2.1.symm, hSame.2.2.symm⟩
  cases hEmpty.symm.trans h

def FirstRefused (config : Config) (rights : RollbackRights) (db : Database) (current target : Task) : Prop :=
  (planOwnedPatch current target).isEmpty = false ∧
    match (PlanRepo.listPlansForTask db target.id).head? with
    | some _ => rights.plans = false
    | none => config.planOnlyIntake = true

/-- The Git context of the snapshot can be written. -/
def GitAccepted (current target : Task) : Prop :=
  current.gitContext = target.gitContext ∨
    ∀ context, target.gitContext = some context → ∃ normal, context.normalized = .ok normal

/-- The Git context of the snapshot is what is written of it. -/
def GitKept (current target : Task) : Prop :=
  current.gitContext = target.gitContext ∨
    ∀ context, target.gitContext = some context → context.normalized = .ok context

/-- The status of the snapshot can be written directly. -/
def StatusAccepted (current target : Task) : Prop :=
  current.status = target.status ∨ directStatusWriteAllowed current.pipelinePosition target.status = true

theorem normalize_execution (current target : Task) :
    (GitAccepted current target ∧ ∃ git, TaskCommands.normalizePatch (executionPatch current target) =
        .ok { executionPatch current target with gitContext := git } ∧
      (git.getD current.gitContext = target.gitContext ↔ GitKept current target)) ∨
    (¬GitAccepted current target ∧ ∃ e, TaskCommands.normalizePatch (executionPatch current target) = .error e) := by
  by_cases hSame : current.gitContext = target.gitContext
  · have hNone : (executionPatch current target).gitContext = none := restoring_eq_none.mpr hSame
    refine .inl ⟨.inl hSame, none, ?_, iff_of_true hSame (.inl hSame)⟩
    unfold TaskCommands.normalizePatch
    rw [hNone]
    dsimp only
    rw [← hNone]
    rfl
  · have hSome : (executionPatch current target).gitContext = some target.gitContext := if_pos hSame
    unfold TaskCommands.normalizePatch
    rw [hSome]
    cases hGit : target.gitContext with
    | none =>
      have hAny : ∀ (goal : GitContext → Prop) context, target.gitContext = some context → goal context := by
        intro goal context hIs
        cases hGit.symm.trans hIs
      refine .inl ⟨.inr (hAny _), some none, ?_, iff_of_true rfl (.inr (hAny _))⟩
      dsimp only
      rw [hGit] at hSome
      rw [← hSome]
      rfl
    | some context =>
      dsimp only
      cases hNormal : context.normalized with
      | error message =>
        refine .inr ⟨?_, .validation message, rfl⟩
        rintro (hIs | hIs)
        · exact hSame hIs
        · obtain ⟨normal, hOk⟩ := hIs context hGit
          cases hNormal.symm.trans hOk
      | ok normal =>
        refine .inl ⟨.inr fun other hOther => ?_, some (some normal), rfl, ?_⟩
        · cases hGit.symm.trans hOther
          exact ⟨normal, hNormal⟩
        · constructor
          · intro hIs
            refine .inr fun other hOther => ?_
            cases hGit.symm.trans hOther
            rw [hNormal, Option.some.inj hIs]
          · rintro (hIs | hIs)
            · exact absurd hIs hSame
            · rw [Option.getD_some, Except.ok.inj (hNormal.symm.trans (hIs context hGit))]

theorem planOwnedPatch_fields (h : (planOwnedPatch current target).isEmpty = false) :
    (planOwnedPatchFields (planOwnedPatch current target)).isEmpty = false := by
  unfold planOwnedPatchFields
  unfold TaskPatch.isEmpty planOwnedPatch at h
  unfold planOwnedPatch
  simp only [TaskPatch.none] at h ⊢
  cases hTitle : restoring current.title target.title
  · cases hDescription : restoring current.description target.description
    · cases hProject : restoring current.projectId target.projectId
      · rw [hTitle, hDescription, hProject] at h
        cases h
      · rfl
    · rfl
  · rfl

theorem owning_plan {plan : Plan} (h : (PlanRepo.listPlansForTask db target.id).head? = some plan) :
    db.plans.find? plan.id = some plan ∧
      ((PlanRepo.listTasksOrdered db plan.id).any fun member => member.taskId = target.id) = true := by
  obtain ⟨member, hMember, hTask, hPlan⟩ := Reconciliation.mem_listPlansForTask.mp (List.mem_of_mem_head? h)
  have hId : plan.id = member.planId := key_of_find? hPlan
  refine ⟨hId ▸ hPlan, List.any_eq_true.mpr ⟨member, ?_, decide_eq_true hTask⟩⟩
  unfold PlanRepo.listTasksOrdered
  exact mem_orderBy.mpr (List.mem_filter.mpr ⟨hMember, decide_eq_true hId.symm⟩)

theorem first_runs (hMints : MintsNew env db) (hKeys : TaskRepo.KeysDistinct db.tasks)
    (hRow : db.tasks.find? target.id = some current) (hNonempty : (planOwnedPatch current target).isEmpty = false)
    (hNot : ¬FirstRefused config rights db current target) :
    ∃ command answer after, planOwnedCommands db rights target.id (planOwnedPatch current target) = .ok [command] ∧
      handleWithRunOwner config env .internal command actor db = (.ok answer, after) ∧
      Patched target.id (planOwnedPatch current target) db after ∧
      ∀ eventId, db.events.find? eventId = none → (∀ n, eventId ≠ (env.part 2).fresh n) →
        after.events.find? eventId = none := by
  have hFields := planOwnedPatch_fields hNonempty
  unfold planOwnedCommands
  rw [if_neg (by rw [hNonempty]; exact Bool.false_ne_true)]
  unfold FirstRefused at hNot
  cases hPlan : (PlanRepo.listPlansForTask db target.id).head? with
  | some plan =>
    rw [hPlan] at hNot
    have hRight : rights.plans = true := by
      cases hHeld : rights.plans
      · exact absurd ⟨hNonempty, hHeld⟩ hNot
      · rfl
    obtain ⟨hStored, hMember⟩ := owning_plan hPlan
    have hBuilt : buildEvents config db ((env.part 0).part 1) actor
        (.plan (.amendPlanTask plan.id target.id (planOwnedPatch current target))) db.relations =
        (.ok ([PlanEvent.planTaskAmended plan.id target.id (planOwnedPatch current target)].map .plan ++
          .task (.taskUpdated target.id (planOwnedPatch current target)) ::
            [PlanEvent.planModifiedByHuman plan.id (activeRunForPlan db plan.id)].map .plan), db.relations) := by
      have hAmended := PlanCommands.amendPlanTask_ok hNonempty rfl hFields hStored hRow hMember
      change (PlanCommands.amendPlanTask db plan.id target.id (planOwnedPatch current target), db.relations) = _
      rw [hAmended]
      rfl
    obtain ⟨answer, after, hHandled, hPatched, hIds⟩ := patch_runs hMints hKeys hRow rfl rfl
      (fun _ => rfl) rfl rfl hBuilt (by simp [Event.IsQuiet])
    refine ⟨_, answer, after, ?_, hHandled, hPatched, hIds⟩
    dsimp only
    rw [requireRight, hRight]
    rfl
  | none =>
    rw [hPlan] at hNot
    have hOpen : config.planOnlyIntake = false := by
      cases hOnly : config.planOnlyIntake
      · rfl
      · exact absurd ⟨hNonempty, hOnly⟩ hNot
    have hAccepted : TaskCommands.updateTask config db target.id (planOwnedPatch current target) =
        .ok [.task (.taskUpdated target.id (planOwnedPatch current target))] := by
      have hOwned : TaskCommands.ensureNotPlanOwned config (planOwnedPatch current target) = .ok () := by
        unfold TaskCommands.ensureNotPlanOwned
        rw [hOpen]
        rfl
      rw [TaskCommands.updateTask_eq hNonempty hOwned rfl rfl hRow]
      rfl
    have hBuilt : buildEvents config db ((env.part 0).part 1) actor
        (.task (.updateTask target.id (planOwnedPatch current target))) db.relations =
        (.ok (([] : List PlanEvent).map .plan ++ .task (.taskUpdated target.id (planOwnedPatch current target)) ::
          ([] : List PlanEvent).map .plan), db.relations) := by
      change (TaskCommands.updateTask config db target.id (planOwnedPatch current target), db.relations) = _
      rw [hAccepted]
      rfl
    obtain ⟨answer, after, hHandled, hPatched, hIds⟩ := patch_runs hMints hKeys hRow rfl rfl
      (fun _ => rfl) rfl rfl hBuilt (by simp)
    exact ⟨_, answer, after, rfl, hHandled, hPatched, hIds⟩

theorem first_refused (h : FirstRefused config rights db current target) :
    (∃ e, planOwnedCommands db rights target.id (planOwnedPatch current target) = .error e) ∨
      ∃ command e, planOwnedCommands db rights target.id (planOwnedPatch current target) = .ok [command] ∧
        handleWithRunOwner config env .internal command actor db = (.error e, db) := by
  obtain ⟨hNonempty, hRefused⟩ := h
  have hFields := planOwnedPatch_fields hNonempty
  unfold planOwnedCommands
  rw [if_neg (by rw [hNonempty]; exact Bool.false_ne_true)]
  cases hPlan : (PlanRepo.listPlansForTask db target.id).head? with
  | some plan =>
    rw [hPlan] at hRefused
    dsimp only at hRefused ⊢
    obtain ⟨e, hHeld⟩ : ∃ e, requireRight rights.plans "plan:write" = .error e := by
      rw [hRefused]
      exact ⟨_, rfl⟩
    refine .inl ⟨e, ?_⟩
    rw [hHeld]
    rfl
  | none =>
    rw [hPlan] at hRefused
    dsimp only at hRefused
    have hOwned : ∃ e, TaskCommands.ensureNotPlanOwned config (planOwnedPatch current target) = .error e := by
      cases hIs : TaskCommands.ensureNotPlanOwned config (planOwnedPatch current target) with
      | error e => exact ⟨e, rfl⟩
      | ok =>
        have hHeld := Outcome.ensure_eq_ok.mp hIs
        rw [hRefused, hFields] at hHeld
        cases hHeld
    obtain ⟨e, hOwned⟩ := hOwned
    have hBuilt : buildEvents config db ((env.part 0).part 1) actor
        (.task (.updateTask target.id (planOwnedPatch current target))) db.relations = (.error e, db.relations) := by
      change (TaskCommands.updateTask config db target.id (planOwnedPatch current target), db.relations) = _
      unfold TaskCommands.updateTask
      rw [hNonempty, hOwned]
      rfl
    exact .inr ⟨_, e, rfl, handle_unbuilt rfl rfl hBuilt⟩

theorem status_write {row : Task} {patch : TaskPatch} (hRow : db.tasks.find? target.id = some row)
    (hStatus : row.status = current.status) (hPosition : row.pipelinePosition = current.pipelinePosition)
    (hPatch : patch.status = restoring current.status target.status) :
    (StatusAccepted current target ∧ TaskCommands.ensurePatchStatusWrite db row patch = .ok ()) ∨
      (¬StatusAccepted current target ∧ ∃ e, TaskCommands.ensurePatchStatusWrite db row patch = .error e) := by
  have hId : row.id = target.id := key_of_find? hRow
  have hPipeline : TaskRepo.pipelinePosition db row.id = current.pipelinePosition := by
    unfold TaskRepo.pipelinePosition
    rw [hId, hRow]
    exact hPosition
  unfold TaskCommands.ensurePatchStatusWrite
  rw [hPatch]
  by_cases hSame : current.status = target.status
  · rw [restoring_eq_none.mpr hSame]
    exact .inl ⟨.inl hSame, rfl⟩
  · have hSome : restoring current.status target.status = some target.status := if_pos hSame
    rw [hSome]
    dsimp only
    rw [if_neg fun h => hSame (hStatus.symm.trans h.symm)]
    unfold TaskCommands.ensureDirectStatusWrite
    rw [hPipeline]
    cases hAt : current.pipelinePosition with
    | none =>
      refine .inl ⟨.inr ?_, rfl⟩
      rw [hAt]
      rfl
    | some position =>
      dsimp only
      by_cases hAllowed : directStatusWriteAllowed (some position) target.status = true
      · rw [if_pos hAllowed]
        exact .inl ⟨.inr (hAt ▸ hAllowed), rfl⟩
      · rw [if_neg hAllowed]
        refine .inr ⟨?_, _, rfl⟩
        rintro (hIs | hIs)
        · exact hSame hIs
        · exact hAllowed (hAt ▸ hIs)

theorem second_runs {row : Task} (hMints : MintsNew env db) (hKeys : TaskRepo.KeysDistinct db.tasks)
    (hRow : db.tasks.find? target.id = some row) (hStatus : row.status = current.status)
    (hPosition : row.pipelinePosition = current.pipelinePosition)
    (hNonempty : (executionPatch current target).isEmpty = false) :
    (GitAccepted current target ∧ StatusAccepted current target ∧ ∃ git answer after,
      handleWithRunOwner config env .internal (.task (.updateTask target.id (executionPatch current target))) actor db =
        (.ok answer, after) ∧
      Patched target.id { executionPatch current target with gitContext := git } db after ∧
      (git.getD current.gitContext = target.gitContext ↔ GitKept current target)) ∨
    (¬(GitAccepted current target ∧ StatusAccepted current target) ∧ ∃ e,
      handleWithRunOwner config env .internal (.task (.updateTask target.id (executionPatch current target))) actor db =
        (.error e, db)) := by
  have hId : row.id = target.id := key_of_find? hRow
  have hOwned : TaskCommands.ensureNotPlanOwned config (executionPatch current target) = .ok () := by
    unfold TaskCommands.ensureNotPlanOwned
    have hNone : planOwnedPatchFields (executionPatch current target) = [] := rfl
    dsimp only
    rw [hNone]
    cases config.planOnlyIntake <;> rfl
  rcases normalize_execution current target with ⟨hGit, git, hNormal, hKept⟩ | ⟨hGit, e, hNormal⟩
  · have hUpdate := TaskCommands.updateTask_eq hNonempty hOwned hNormal rfl hRow
    rcases @status_write db current target row { executionPatch current target with gitContext := git } hRow hStatus hPosition rfl with
      ⟨hDirect, hWritten⟩ | ⟨hDirect, e, hWritten⟩
    · have hBuilt : buildEvents config db ((env.part 0).part 1) actor
          (.task (.updateTask target.id (executionPatch current target))) db.relations =
          (.ok (([] : List PlanEvent).map .plan ++
            .task (.taskUpdated target.id { executionPatch current target with gitContext := git }) ::
              ([] : List PlanEvent).map .plan), db.relations) := by
        change (TaskCommands.updateTask config db target.id (executionPatch current target), db.relations) = _
        rw [hUpdate, hWritten]
        rfl
      obtain ⟨answer, after, hHandled, hPatched, _⟩ := patch_runs hMints hKeys hRow rfl rfl
        (fun _ => rfl) rfl rfl hBuilt (by simp)
      exact .inl ⟨hGit, hDirect, git, answer, after, hHandled, hPatched, hKept⟩
    · refine .inr ⟨fun h => hDirect h.2, e, handle_unbuilt rfl rfl ?_⟩
      change (TaskCommands.updateTask config db target.id (executionPatch current target), db.relations) = _
      rw [hUpdate, hWritten]
      rfl
  · refine .inr ⟨fun h => hGit h.1, e, handle_unbuilt rfl rfl ?_⟩
    change (TaskCommands.updateTask config db target.id (executionPatch current target), db.relations) = _
    unfold TaskCommands.updateTask
    rw [hNonempty, hOwned, hNormal]
    rfl

theorem document_runs {command : DocumentCommand} {event : DocumentEvent} (hMints : MintsNew env db)
    (hQuiet : (Event.document event).IsQuiet)
    (hBuilt : DocumentCommands.buildEvents db ((env.part 0).part 1) command = .ok [event]) :
    ∃ answer after, handleWithRunOwner config env .internal (.document command) actor db = (.ok answer, after) ∧
      after.tasks = db.tasks ∧ after.documents = DocumentRepo.applyDocumentEvent db.documents event ∧
      after.relations = db.relations ∧ after.agentClaims = db.agentClaims ∧
      ∀ eventId, db.events.find? eventId = none → (∀ n, eventId ≠ (env.part 2).fresh n) →
        after.events.find? eventId = none := by
  have hAll : buildEvents config db ((env.part 0).part 1) actor (.document command) db.relations =
      (.ok [.document event], db.relations) := by
    change recorded .document (DocumentCommands.buildEvents db ((env.part 0).part 1) command) db.relations = _
    rw [hBuilt]
    rfl
  have hQuietly : ∀ other ∈ [Event.document event], other.IsQuiet := by
    intro other hMem
    rw [List.mem_singleton.mp hMem]
    exact hQuiet
  obtain ⟨persisted, appended, hAppend, hHandled⟩ := Handler.handle_quiet hMints rfl (fun _ => rfl) rfl rfl hAll hQuietly (by simp)
  have hPayloads : persisted.map EventEnvelope.payload = [.document event] := by
    rw [(appendBatch_ok hAppend).1, Handler.envelopesOf_payload]
  obtain ⟨events, latestSeq, rfl⟩ := (appendBatch_ok hAppend).2.2
  obtain ⟨envelope, rfl, hPayload⟩ := List.map_eq_singleton_iff.mp hPayloads
  have hPersisted : ∀ other ∈ [envelope], other.payload.IsQuiet := by
    intro other hMem
    rw [List.mem_singleton.mp hMem, hPayload]
    exact hQuiet
  have hTasks : Projections.tasksAfter (env.part 4) db.tasks [envelope] = .ok db.tasks := by
    unfold Projections.tasksAfter TaskRepo.applyEvent
    rw [List.foldlM_cons, hPayload]
    rfl
  obtain ⟨applied, hApplied, hAfter, hDocuments, hKeeps⟩ := @Projections.applyEvents_quiet _ _ _
    { db with events := events, latestSeq := latestSeq } hPersisted hTasks
  refine ⟨_, applied, hHandled applied hApplied, hAfter, ?_, hKeeps.relations, hKeeps.agentClaims, fun eventId hNew hOther => ?_⟩
  · rw [hDocuments]
    unfold DocumentRepo.applyEvent
    rw [List.foldl_cons, hPayload]
    rfl
  · rw [hKeeps.events]
    exact Handler.appended_new hAppend hNew hOther

end Rollback
end Daruma
