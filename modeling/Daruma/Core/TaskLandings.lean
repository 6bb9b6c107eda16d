import Daruma.Core.PlanTriggers
import Daruma.Core.TaskOrigins

/-! The tasks that a command creates or moves, each with the project that it lands in,
and the plans that it makes. -/
namespace Daruma

open Outcome KeyedTable List

namespace Landings

def homeless (db : Database) (id : TaskId) : Bool := (db.tasks.find? id).any fun task => task.projectId.isNone

def joins (db : Database) (planId : PlanId) (taskIds : List TaskId) : List (TaskId × Option ProjectId) :=
  match db.plans.find? planId with
  | none => []
  | some plan => (taskIds.filter (homeless db)).map fun id => (id, some plan.projectId)

/-- The children of a split. Under plan-only intake, those without a project join
the plans of their parent. -/
def children (config : Config) (db : Database) (env : Env) (parent : TaskId) (subtasks : List NewTask) :
    List (TaskId × Option ProjectId) :=
  match db.tasks.find? parent with
  | none => []
  | some parentTask =>
    let split := (TaskCommands.prepareSubtasks env parentTask 0 subtasks).flatMap fun child =>
      child.id.toList.map fun id => (id, child.projectId)
    let joining := split.filter fun child => config.planOnlyIntake && (homeless db child.1 || (child.1, none) ∈ split)
    split ++ joining.flatMap fun child =>
      (PlanRepo.listPlansForTask db parent).map fun plan => (child.1, some plan.projectId)

/-- The tasks of a batch that no stored task stands for already. -/
def materialized (db : Database) (env : Env) (projectId : ProjectId) (tasks : List NewTask) :
    List (TaskId × Option ProjectId) :=
  (tasks.zipIdx.filter fun entry => ((normalizedKey entry.1.externalKey).bind (TaskRepo.findByExternalKey db)).isNone).map
    fun entry => (entry.1.id.getD (((env.part 1).part entry.2).fresh 0), some projectId)

end Landings

namespace Command

open Landings

def landings (config : Config) (db : Database) (env : Env) : Command → List (TaskId × Option ProjectId)
  | .task (.createTask new) =>
    if ((normalizedKey new.externalKey).bind (TaskRepo.findByExternalKey db)).isNone then
      [(new.id.getD (env.fresh 0), new.projectId)]
    else []
  | .task (.splitTask parent subtasks) => children config db env parent subtasks
  | .task (.updateTask id patch) | .plan (.amendPlanTask _ id patch) =>
    patch.projectId.toList.map fun projectId => (id, projectId)
  | .plan (.materializePlan new tasks none) => materialized db env new.projectId tasks
  | .plan (.materializePlan _ tasks (some planId)) => match db.plans.find? planId with
      | none => []
      | some existing => materialized db env existing.projectId tasks
  | .plan (.addPlanTask planId taskId _ _) => joins db planId [taskId]
  | .plan (.bulkAttachToPlan planId taskIds) => joins db planId
      (taskIds.filter fun id => id ∉ (PlanRepo.listTasksOrdered db planId).map PlanTask.taskId)
  | _ => []

def makes (env : Env) : Command → List (PlanId × ProjectId)
  | .plan (.createPlan new _) | .plan (.materializePlan new _ none) => [(env.fresh 0, new.projectId)]
  | _ => []

def settles (db : Database) (env : Env) : Command → List ProjectId
  | .project (.createProject ..) => [env.fresh 0]
  | .project (.updateProject id ..) => (db.projects.find? id).toList.filterMap fun project =>
    if project.tenantId.isNone then some id else none
  | _ => []

/-- A plan that is made with its tasks has a new id. -/
def MintsPlan (db : Database) (env : Env) : Command → Prop
  | .plan (.materializePlan _ _ none) => db.plans.find? (env.fresh 0) = none
  | _ => True

/-- What there may be once the command is carried out: what was stored, what the
command lands and what it makes. -/
def origins (config : Config) (db : Database) (env : Env) (command : Command) : Origins where
  task id projectId := (∃ task ∈ db.tasks, task.id = id ∧ task.projectId = projectId) ∨
    (id, projectId) ∈ command.landings config db env
  plan id projectId := (∃ plan ∈ db.plans, plan.id = id ∧ plan.projectId = projectId) ∨ (id, projectId) ∈ command.makes env
  project id tenant := (∃ project ∈ db.projects, project.id = id ∧ project.tenantId = tenant) ∨
    (id ∈ command.settles db env ∧ tenant = some ProjectRepo.defaultTenantId)

end Command

abbrev AllLand (origins : Origins) (events : List Event) : Prop := Everywhere (Event.Lands origins) events

section

variable {config : Config} {db : Database} {env : Env} {actor : Actor} {origins : Origins}

variable {projectId : ProjectId} {events : List Event} {taskId : TaskId}

theorem LandsNothing.lands (h : LandsNothing events) : AllLand origins events :=
  fun event hMem => .of_nothing (h event hMem)

theorem commentEvents_landsNothing (comment : Comment) : LandsNothing (commentEvents comment) := .cons rfl (.cons rfl .nil)

variable {command : Command} {plan : Plan}

theorem Command.origins_cover : (command.origins config db env).Cover db :=
  ⟨fun task hTask => .inl ⟨task, hTask, rfl, rfl⟩, fun plan hPlan => .inl ⟨plan, hPlan, rfl, rfl⟩,
    fun project hProject => .inl ⟨project, hProject, rfl, rfl⟩⟩

theorem Command.origins_plan
    (hPlan : db.plans.find? plan.id = some plan) (hMakes : ∀ made ∈ command.makes env, made.1 ≠ plan.id)
    (h : (command.origins config db env).plan plan.id projectId) : projectId = plan.projectId := by
  rcases h with ⟨other, hOther, hIs, hProject⟩ | hMade
  · have hFound := find?_of_mem hOther
    rw [hIs, hPlan] at hFound
    rw [← hProject, ← Option.some.inj hFound]
  · exact absurd rfl (hMakes _ hMade)

theorem PlanRepo.find?_of_mem_listPlansForTask
    (h : plan ∈ PlanRepo.listPlansForTask db taskId) : db.plans.find? plan.id = some plan := by
  obtain ⟨joined, hJoined, rfl⟩ := mem_map.mp h
  obtain ⟨member, _, hMember⟩ := mem_filterMap.mp ((perm_insertionSort _ _).mem_iff.mp hJoined)
  obtain ⟨found, hFound, rfl⟩ := Option.map_eq_some_iff.mp hMember
  rw [key_of_find? hFound]
  exact hFound

namespace TaskCommands

variable {now : Timestamp}

variable {id : TaskId} {toStatus : Status} {task : Task} {subtasks : List NewTask} {command : TaskCommand}

theorem mem_of_mem_dedupeIds {ids : List TaskId} (h : id ∈ dedupeIds ids) : id ∈ ids := by
  induction ids with
  | nil => exact h
  | cons first rest ih =>
    rcases mem_cons.mp h with rfl | hRest
    · exact mem_cons_self
    · exact mem_cons_of_mem _ (ih (mem_filter.mp hRest).1)

theorem normalizePatch_project {patch : TaskPatch} :
    Yields (normalizePatch patch) fun normal => normal.projectId = patch.projectId := by
  unfold normalizePatch
  split
  · exact .andThen fun _ _ => .pure rfl
  · exact .pure rfl

theorem prepareSubtasks_id {parent : Task} {n : Nat} {new : NewTask}
    (h : new ∈ prepareSubtasks env parent n subtasks) : ∃ id, new.id = some id := by
  obtain ⟨intake, _, hCreated⟩ := prepareSubtasks_created h
  exact ⟨intake.id, hCreated.id⟩

theorem splitTask_lands {parent : TaskId} : Yields (splitTask config db env parent subtasks)
      (AllLand ((Command.task (.splitTask parent subtasks)).origins config db env)) := by
  refine .andThen fun _ _ => .andThen fun parentTask hParent => ?_
  have hFound : db.tasks.find? parent = some parentTask := okOr_eq_ok.mp hParent
  let split := (prepareSubtasks env parentTask 0 subtasks).flatMap fun child =>
    child.id.toList.map fun id => (id, child.projectId)
  let joining := split.filter fun child =>
    config.planOnlyIntake && (Landings.homeless db child.1 || (child.1, none) ∈ split)
  have hLandings : (Command.task (.splitTask parent subtasks)).landings config db env = split ++
      joining.flatMap fun child => (PlanRepo.listPlansForTask db parent).map fun plan => (child.1, some plan.projectId) := by
    show Landings.children config db env parent subtasks = _
    unfold Landings.children
    rw [hFound]
  have hSplit : ∀ child ∈ prepareSubtasks env parentTask 0 subtasks, ∀ id, child.id = some id →
      (id, child.projectId) ∈ split := by
    intro child hChild id hId
    refine mem_flatMap.mpr ⟨child, hChild, mem_map.mpr ⟨id, ?_, rfl⟩⟩
    rw [hId]
    exact mem_singleton_self id
  have hChild : ∀ child ∈ prepareSubtasks env parentTask 0 subtasks, ∃ id, child.id = some id ∧
      ((Command.task (.splitTask parent subtasks)).origins config db env).task id child.projectId := by
    intro child hChild
    obtain ⟨id, hId⟩ := prepareSubtasks_id hChild
    refine ⟨id, hId, .inr ?_⟩
    rw [hLandings]
    exact mem_append_left _ (hSplit child hChild id hId)
  have hCreated : AllLand ((Command.task (.splitTask parent subtasks)).origins config db env)
      (.task (.taskSplitGenerated parent (prepareSubtasks env parentTask 0 subtasks)) ::
        (prepareSubtasks env parentTask 0 subtasks).map fun child => .task (.taskCreated child)) :=
    .cons hChild (forall_mem_map.mpr hChild)
  refine .ite (fun hPlanOnly => .andThen fun _ _ => .pure (.append hCreated fun event hEvent => ?_))
    fun _ => .pure hCreated
  obtain ⟨plan, hPlan, hEvent⟩ := mem_flatMap.mp hEvent
  rcases mem_append.mp hEvent with hEvent | hEvent
  · obtain ⟨⟨child, n⟩, hMem, hEvent⟩ := mem_filterMap.mp hEvent
    obtain ⟨id, hId, rfl⟩ := Option.map_eq_some_iff.mp hEvent
    intro hHomeless projectId hOrigin
    obtain rfl : projectId = plan.projectId :=
      Command.origins_plan (PlanRepo.find?_of_mem_listPlansForTask hPlan) (fun _ hMade => absurd hMade not_mem_nil) hOrigin
    have hIn : (id, child.projectId) ∈ split := hSplit child (fst_mem_of_mem_zipIdx hMem) id hId
    refine .inr ?_
    rw [hLandings]
    refine mem_append_right _ (mem_flatMap.mpr ⟨_, mem_filter.mpr ⟨hIn, ?_⟩, ?_⟩)
    · rw [hPlanOnly, Bool.true_and, Bool.or_eq_true, decide_eq_true_eq]
      rcases hHomeless with ⟨task, hTask, hIs, hNone⟩ | hLanded
      · refine .inl ?_
        unfold Landings.homeless
        rw [← hIs, find?_of_mem hTask]
        exact Option.isNone_iff_eq_none.mpr hNone
      · rw [hLandings] at hLanded
        rcases mem_append.mp hLanded with hLanded | hLanded
        · exact .inr hLanded
        · obtain ⟨_, _, hJoined⟩ := mem_flatMap.mp hLanded
          obtain ⟨_, _, hPair⟩ := mem_map.mp hJoined
          cases hPair
    · exact mem_map.mpr ⟨plan, hPlan, rfl⟩
  · rw [mem_singleton.mp hEvent]
    exact trivial

theorem buildEvents_landsNothing (h : (Command.task command).places = false) :
    Stateful.Yields (buildEvents config db env actor command) LandsNothing :=
  .mono (@buildEvents_records config db env false actor command) fun _ hAll event hMem => (hAll event hMem).landsNothing h

theorem unlink_landsNothing {now : Timestamp} (relation : Relation) : Stateful.Yields (unlink now relation) LandsNothing :=
  .andThen fun _ => .andThen fun _ => .pure (.cons rfl .nil)

theorem buildEvents_lands : Stateful.Yields (buildEvents config db env actor command)
      (AllLand ((Command.task command).origins config db env)) := by
  cases command with
  | createTask task =>
    refine .lift (.andThen fun _ _ => .andThen fun title _ => ?_)
    dsimp only
    have hLands : ((normalizedKey task.externalKey).bind fun key => (TaskRepo.findByExternalKey db key).map
        fun found => (key, found)) = none →
        Event.Lands ((Command.task (.createTask task)).origins config db env) (.task (.taskCreated
          { normalizeExternalKey { task with title := title } with id := some (task.id.getD (env.fresh 0)) })) := by
      intro hNone
      refine ⟨_, rfl, .inr ?_⟩
      show _ ∈ if ((normalizedKey task.externalKey).bind (TaskRepo.findByExternalKey db)).isNone then
        [(task.id.getD (env.fresh 0), task.projectId)] else []
      rw [if_pos (by
        cases hKey : normalizedKey task.externalKey with
        | none => rfl
        | some key =>
          rw [hKey] at hNone
          exact Option.isNone_iff_eq_none.mpr (Option.map_eq_none_iff.mp hNone))]
      exact mem_singleton_self _
    split
    · exact .pure (commentEvents_landsNothing _).lands
    · rename_i hNone
      have hLands := hLands hNone
      split
      · exact .andThen fun _ _ => .pure (.cons hLands .nil)
      · exact .pure (.cons hLands .nil)
  | updateTask id patch =>
    refine .lift (.andThen fun _ _ => .andThen fun _ _ => .bind normalizePatch_project fun normal hNormal => .andThen
      fun _ _ => .andThen fun _ _ => .andThen fun _ _ => .pure (.cons (fun projectId hProject => ?_) .nil))
    refine .inr (mem_map.mpr ⟨projectId, ?_, rfl⟩)
    rw [Option.mem_toList, ← hNormal]
    exact hProject
  | deleteTask id =>
    refine .andThen fun _ => .andThen fun _ => .andThen fun _ =>
      .bind (.collect fun relation _ => unlink_landsNothing relation) fun _ hUnlinked => .pure ?_
    exact .append (.append (LandsNothing.lands (.append hUnlinked (.map fun _ => rfl))) (.map fun _ => trivial))
      (.cons trivial .nil)
  | splitTask parent subtasks => exact .lift splitTask_lands
  | _ => exact .mono (buildEvents_landsNothing rfl) fun _ h => h.lands

end TaskCommands

namespace PlanCommands

variable {target : MaterializeTarget} {task : NewTask} {plan : Plan} {command : PlanCommand}

theorem createdEvents_lands {id : TaskId}
    (h : origins.task id task.projectId) : AllLand origins (createdEvents env target actor id task) := by
  refine .cons ⟨id, rfl, h⟩ (LandsNothing.lands (.append ?_ ?_))
  · cases target.gitContext with
    | none => exact .nil
    | some context => exact .cons rfl .nil
  · cases target.sourceNote with
    | none => exact .nil
    | some sourceNote => exact commentEvents_landsNothing _

theorem prepareTask_project : Yields (prepareTask projectId task) fun prepared => prepared.id = task.id ∧
      prepared.externalKey = normalizedKey task.externalKey ∧ prepared.projectId = some projectId :=
  .andThen fun _ _ => .andThen fun _ _ => .pure ⟨rfl, rfl, rfl⟩

theorem materializedTaskEvents_lands {tasks : List NewTask} {n position : Nat} {batchKeys : List String} (hStored : origins.Cover db)
    (hTarget : ∀ projectId, origins.plan target.planId projectId → projectId = target.projectId)
    (hNew : ∀ entry ∈ tasks.zipIdx n, ((normalizedKey entry.1.externalKey).bind (TaskRepo.findByExternalKey db)).isNone = true →
      origins.task (entry.1.id.getD ((env.part entry.2).fresh 0)) (some target.projectId)) :
    Yields (materializedTaskEvents db env target actor n position batchKeys tasks) (AllLand origins) := by
  induction tasks generalizing n position batchKeys with
  | nil => exact .ok .nil
  | cons task rest ih =>
    rw [zipIdx_cons] at hNew
    obtain ⟨hFirst, hRest⟩ := forall_mem_cons.mp hNew
    refine .bind prepareTask_project fun prepared ⟨hId, hKey, hProject⟩ => .andThen fun keys _ => .andThen
      fun ⟨id, events⟩ hEvents => ?_
    have hTask : AllLand origins events ∧ origins.task id (some target.projectId) := by
      rcases materializedTask_ok hEvents with ⟨key, existing, _, hFound, hIn, rfl, rfl⟩ | ⟨hNone, rfl, rfl⟩
      · refine ⟨(commentEvents_landsNothing _).lands, ?_⟩
        rw [← hIn]
        exact hStored.tasks existing (mem_of_find?_eq_some hFound)
      · have hLands : origins.task (prepared.id.getD ((env.part n).fresh 0)) (some target.projectId) := by
          rw [hId]
          apply hFirst
          rw [← hKey, hNone]
          rfl
        exact ⟨createdEvents_lands (hProject.symm ▸ hLands), hLands⟩
    have hJoins : ∀ place, Event.Lands origins (.plan (.planTaskAdded target.planId id place [])) := by
      intro place _ projectId hPlan
      rw [hTarget projectId hPlan]
      exact hTask.2
    exact .ite (fun _ => .bind (ih hRest) fun later hLater => .pure (.append hTask.1 hLater)) fun _ =>
      .bind (ih hRest) fun later hLater => .pure (.append hTask.1 (.cons (hJoins position) hLater))

theorem newPlan_made {plan : NewPlan} : Yields (newPlan config db env plan) fun created =>
    created.id = env.fresh 0 ∧ created.projectId = plan.projectId := by
  refine .andThen fun title _ => ?_
  dsimp only
  split
  · refine .andThen fun _ _ => ?_
    split
    · exact .andThen fun _ _ => .pure ⟨rfl, rfl⟩
    · exact .pure ⟨rfl, rfl⟩
  · split
    · exact .andThen fun _ _ => .pure ⟨rfl, rfl⟩
    · exact .pure ⟨rfl, rfl⟩

theorem reopenEvents_landsNothing : Yields (reopenEvents plan) LandsNothing := by
  refine .andThen fun _ _ => ?_
  split
  · exact .error _
  · exact .pure (.cons rfl .nil)
  · exact .pure .nil
  · exact .pure .nil

theorem joins_lands {command : Command} {planId : PlanId} {taskIds : List TaskId} {place : Nat} {dependsOn : List TaskId} (hPlan : db.plans.find? planId = some plan) (hMakes : command.makes env = [])
    (hLandings : command.landings config db env = Landings.joins db planId taskIds) (hMem : taskId ∈ taskIds) :
    Event.Lands (command.origins config db env) (.plan (.planTaskAdded planId taskId place dependsOn)) := by
  intro hHomeless projectId hOrigin
  have hId : plan.id = planId := key_of_find? hPlan
  subst hId
  obtain rfl : projectId = plan.projectId :=
    Command.origins_plan hPlan (fun _ hMade => absurd (hMakes ▸ hMade) not_mem_nil) hOrigin
  have hJoins : Landings.joins db plan.id taskIds =
      (taskIds.filter (Landings.homeless db)).map fun id => (id, some plan.projectId) := by
    unfold Landings.joins
    rw [hPlan]
  refine .inr ?_
  rw [hLandings, hJoins]
  refine mem_map.mpr ⟨taskId, mem_filter.mpr ⟨hMem, ?_⟩, rfl⟩
  rcases hHomeless with ⟨task, hTask, hIs, hNone⟩ | hLanded
  · unfold Landings.homeless
    rw [← hIs, find?_of_mem hTask]
    exact Option.isNone_iff_eq_none.mpr hNone
  · rw [hLandings, hJoins] at hLanded
    obtain ⟨_, _, hPair⟩ := mem_map.mp hLanded
    cases hPair

theorem abortedRuns_landsNothing {now : Timestamp} (planId : PlanId) (reason : String) :
    LandsNothing (abortedRuns db now planId reason) :=
  .flatMap fun _ => .cons rfl (.cons rfl .nil)

theorem buildEvents_landsNothing (h : (Command.plan command).places = false) :
    Yields (buildEvents config db env actor command) LandsNothing :=
  .mono (@buildEvents_records config db env false actor command) fun _ hAll event hMem => (hAll event hMem).landsNothing h

theorem buildEvents_lands (hMints : (Command.plan command).MintsPlan db env) :
    Yields (buildEvents config db env actor command) (AllLand ((Command.plan command).origins config db env)) := by
  cases command with
  | createPlan plan externalRef =>
    refine createPlan_rule .nil (.mono newPlan_made fun created ⟨hId, hProject⟩ => .cons (.inr (mem_singleton.mpr ?_)) .nil)
    rw [hId, hProject]
  | materializePlan plan tasks planId =>
    cases planId with
    | none =>
      refine .andThen fun _ _ => .bind newPlan_made fun created ⟨hId, hProject⟩ => ?_
      have hMade : ((Command.plan (.materializePlan plan tasks none)).origins config db env).plan created.id
          created.projectId := by
        refine .inr (mem_singleton.mpr ?_)
        rw [hId, hProject]
      refine .bind (materializedTaskEvents_lands Command.origins_cover (fun projectId hOrigin => ?_)
        fun entry hEntry hNone => ?_) fun _ hEvents => .pure (.cons hMade hEvents)
      · rcases hOrigin with ⟨other, hOther, hIs, _⟩ | hNew
        · have hFound := find?_of_mem hOther
          rw [hIs, show created.id = env.fresh 0 from hId, show db.plans.find? (env.fresh 0) = none from hMints] at hFound
          cases hFound
        · exact congrArg Prod.snd (mem_singleton.mp hNew)
      · exact .inr (mem_map.mpr ⟨entry, mem_filter.mpr ⟨hEntry, hNone⟩, rfl⟩)
    | some planId =>
      refine .andThen fun _ _ => .bind requirePlan_ok fun existing hPlan => .bind reopenEvents_landsNothing
        fun _ hReopened => .andThen fun _ _ => .andThen fun _ _ => ?_
      have hId : existing.id = planId := key_of_find? hPlan
      have hLandings : (Command.plan (.materializePlan plan tasks (some planId))).landings config db env =
          Landings.materialized db env existing.projectId tasks := by
        show (match db.plans.find? planId with
          | none => []
          | some existing => Landings.materialized db env existing.projectId tasks) = _
        rw [hPlan]
      refine .bind (materializedTaskEvents_lands Command.origins_cover (fun projectId hOrigin => ?_)
        fun entry hEntry hNone => ?_) fun _ hEvents => .pure (.append hReopened.lands hEvents)
      · subst hId
        exact Command.origins_plan hPlan (fun _ hMade => absurd hMade not_mem_nil) hOrigin
      · refine .inr ?_
        rw [hLandings]
        exact mem_map.mpr ⟨entry, mem_filter.mpr ⟨hEntry, hNone⟩, rfl⟩
  | amendPlanTask planId taskId patch =>
    refine .andThen fun _ _ => .andThen fun _ _ => .andThen fun _ _ => .andThen fun _ _ => .andThen fun _ _ =>
      .andThen fun _ _ => .pure (.cons trivial (.cons (fun projectId hProject => ?_) (.cons trivial .nil)))
    exact .inr (mem_map.mpr ⟨projectId, Option.mem_toList.mpr hProject, rfl⟩)
  | deletePlan id =>
    exact .andThen fun _ _ => .andThen fun _ _ => .pure (.cons trivial (abortedRuns_landsNothing _ _).lands)
  | removePlanTask planId taskId =>
    refine .andThen fun _ _ => .pure (.cons trivial (LandsNothing.lands ?_))
    split
    · exact .cons rfl (.cons rfl .nil)
    · exact .nil
  | addPlanTask planId taskId position dependsOn =>
    refine .map (.bind requirePlan_ok fun plan hPlan => .andThen fun _ _ => .pure (.cons ?_ (.cons trivial .nil)))
    exact joins_lands hPlan rfl rfl (mem_singleton_self taskId)
  | bulkAttachToPlan planId taskIds =>
    refine .map (.andThen fun _ _ => .bind requirePlan_ok fun plan hPlan => .andThen fun _ _ =>
      .ite (fun _ => .pure .nil) fun _ => .pure ?_)
    rw [map_append]
    refine .append (forall_mem_map.mpr fun event hEvent => ?_) (.cons trivial .nil)
    obtain ⟨entry, hEntry, rfl⟩ := mem_map.mp hEvent
    have hAdded := fst_mem_of_mem_zipIdx hEntry
    obtain ⟨hUnique, hOther⟩ := mem_filter.mp hAdded
    exact joins_lands hPlan rfl rfl (mem_filter.mpr ⟨TaskCommands.mem_of_mem_dedupeIds hUnique, hOther⟩)
  | _ => exact .mono (buildEvents_landsNothing rfl) fun _ h => h.lands

end PlanCommands

namespace ProjectCommands

variable {command : ProjectCommand}

theorem buildEvents_landsNothing (h : (Command.project command).places = false) :
    Yields (buildEvents config db env command) fun events => LandsNothing (events.map .project) :=
  .mono (@buildEvents_records config db env false command) fun _ hAll => forall_mem_map.mpr fun event hMem =>
    (hAll event hMem).landsNothing h

/-- A new project, and one that is rewritten without a tenant, is the default
tenant's. -/
theorem buildEvents_lands : Yields (buildEvents config db env command) fun events =>
    AllLand ((Command.project command).origins config db env) (events.map .project) := by
  cases command with
  | createProject title description =>
    refine .andThen fun _ _ => .pure (.cons (.inr ⟨?_, rfl⟩) .nil)
    exact mem_singleton_self (env.fresh 0)
  | updateProject id title description =>
    refine .andThen fun _ _ => .andThen fun project hProject => .pure (.cons (fun tenant hTenant => ?_) .nil)
    have hFound : db.projects.find? id = some project := okOr_eq_ok.mp hProject
    have hStored : project.id = id := key_of_find? hFound
    cases hTenantId : project.tenantId with
    | none =>
      refine .inr ⟨?_, ?_⟩
      · show id ∈ (db.projects.find? id).toList.filterMap fun project =>
          if project.tenantId.isNone then some id else none
        rw [hFound]
        simp [hTenantId]
      · rcases hTenant with ⟨other, hOther, hIs, hIn⟩ | ⟨_, hIn⟩
        · have hSame := find?_of_mem hOther
          rw [hIs, hFound] at hSame
          rw [← hIn, ← Option.some.inj hSame, hTenantId]
          rfl
        · rw [hIn]
          rfl
    | some given =>
      rcases hTenant with ⟨other, hOther, hIs, hIn⟩ | ⟨hSettles, hIn⟩
      · have hSame := find?_of_mem hOther
        rw [hIs, hFound] at hSame
        refine .inl ⟨project, mem_of_find? hFound, hStored, ?_⟩
        rw [← hIn, ← Option.some.inj hSame, hTenantId]
        rfl
      · rw [hIn]
        exact .inr ⟨hSettles, rfl⟩
  | _ => exact .mono (buildEvents_landsNothing rfl) fun _ h => h.lands

end ProjectCommands

theorem buildEvents_landsNothing (h : command.places = false) :
    Stateful.Yields (buildEvents config db env actor command) LandsNothing :=
  .mono (@buildEvents_records config db env false actor command) fun _ hAll event hMem => (hAll event hMem).landsNothing h

theorem buildEvents_lands (hMints : command.MintsPlan db env) :
    Stateful.Yields (buildEvents config db env actor command) (AllLand (command.origins config db env)) := by
  cases command with
  | plan command => exact .lift (PlanCommands.buildEvents_lands hMints)
  | task command => exact TaskCommands.buildEvents_lands
  | project command => exact .lift (.map ProjectCommands.buildEvents_lands)
  | _ => exact .mono (buildEvents_landsNothing rfl) fun _ h => h.lands

end
end Daruma
