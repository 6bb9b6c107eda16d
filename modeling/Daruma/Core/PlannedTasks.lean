import Daruma.Core.Shelters
import Daruma.Core.TenantQuotas

/-! Every task stays in a plan while the intake is by plans only: which batches are safe
to stop in, wherever a projection refuses one of their events. -/
namespace Daruma

open Outcome List
open Event (shelters)
open Shelter (of of_whole of_shows)

/-- The event leaves the tasks that there may be, the members and the keys. -/
def Event.Still (event : Event) : Prop := ∀ before, shelters before event = before

theorem Event.still_of_nothing {event : Event} (h : event.landsNothing = true) : event.Still := by
  intro before
  cases event with
  | task event =>
    cases event with
    | taskCreated | taskSplitGenerated | taskDeleted => cases h
    | _ => exact Event.shelters_task rfl fun _ hIs => nomatch hIs
  | plan event =>
    cases event with
    | planTaskAdded | planTaskRemoved | planDeleted => cases h
    | _ => rfl
  | _ => rfl

section

variable {shelter : Shelter} {events first later : List Event} {event : Event}

theorem SafeFrom.of_still (hStill : Everywhere Event.Still events) (hWhole : shelter.Whole) : SafeFrom shelter events := by
  induction events with
  | nil => exact hWhole
  | cons event rest ih =>
    obtain ⟨hFirst, hRest⟩ := forall_mem_cons.mp hStill
    refine ⟨.inr (.inr hWhole), ?_⟩
    rw [hFirst]
    exact ih hRest

theorem SafeFrom.of_nothing (h : LandsNothing events) (hWhole : shelter.Whole) : SafeFrom shelter events :=
  .of_still (fun event hMem => event.still_of_nothing (h event hMem)) hWhole

theorem SafeFrom.after_still (hStill : Everywhere Event.Still first) (hWhole : shelter.Whole) (h : SafeFrom shelter later) :
    SafeFrom shelter (first ++ later) := by
  induction first with
  | nil => exact h
  | cons event rest ih =>
    obtain ⟨hFirst, hRest⟩ := forall_mem_cons.mp hStill
    refine ⟨.inr (.inr hWhole), ?_⟩
    rw [hFirst]
    exact ih hRest

/-- Events that leave everything and are never refused may come anywhere. -/
theorem SafeFrom.after_steady (hStill : Everywhere (fun event => event.Still ∧ event.Steady) first)
    (h : SafeFrom shelter later) : SafeFrom shelter (first ++ later) := by
  induction first with
  | nil => exact h
  | cons event rest ih =>
    obtain ⟨hFirst, hRest⟩ := forall_mem_cons.mp hStill
    refine ⟨.inl hFirst.2, ?_⟩
    rw [hFirst.1]
    exact ih hRest

theorem SafeFrom.append (h : SafeFrom shelter first) (hLater : ∀ after : Shelter, after.Whole → SafeFrom after later) :
    SafeFrom shelter (first ++ later) := by
  induction first generalizing shelter with
  | nil => exact hLater shelter h
  | cons event rest ih => exact ⟨h.1, ih h.2⟩

theorem SafeFrom.of_steady (hSteady : ∀ event ∈ events, event.Steady)
    (hWhole : (events.foldl shelters shelter).Whole) : SafeFrom shelter events := by
  induction events generalizing shelter with
  | nil => exact hWhole
  | cons event rest ih =>
    obtain ⟨hFirst, hRest⟩ := forall_mem_cons.mp hSteady
    exact ⟨.inl hFirst, ih hRest hWhole⟩

/-- The event adds members at most. -/
structure Event.OnlyJoins (event : Event) : Prop where
  steady : event.Steady
  tasks : ∀ before id, (shelters before event).task id → before.task id
  members : ∀ before planId taskId, before.member planId taskId → (shelters before event).member planId taskId

variable {planId : PlanId} {taskId : TaskId} {position : Nat} {dependsOn : List TaskId} {f : Event → Event}

theorem Event.OnlyJoins.added : Event.OnlyJoins (.plan (.planTaskAdded planId taskId position dependsOn)) :=
  ⟨trivial, fun _ _ h => h, fun _ _ _ h => .inl h⟩

theorem Event.OnlyJoins.modified {runId : Option RunId} :
    Event.OnlyJoins (.plan (.planModifiedByHuman planId runId)) :=
  ⟨trivial, fun _ _ h => h, fun _ _ _ h => h⟩

theorem foldl_joins (hJoins : Everywhere Event.OnlyJoins events) :
    (∀ id, (events.foldl shelters shelter).task id → shelter.task id) ∧
      ∀ planId taskId, shelter.member planId taskId → (events.foldl shelters shelter).member planId taskId := by
  induction events generalizing shelter with
  | nil => exact ⟨fun _ h => h, fun _ _ h => h⟩
  | cons event rest ih =>
    obtain ⟨hFirst, hRest⟩ := forall_mem_cons.mp hJoins
    have hLater := @ih (shelters shelter event) hRest
    refine ⟨fun id hTask => ?_, fun planId taskId hMember => ?_⟩
    · exact hFirst.tasks shelter id (hLater.1 id hTask)
    · exact hLater.2 planId taskId (hFirst.members shelter planId taskId hMember)

theorem foldl_joined
    (hJoins : Everywhere Event.OnlyJoins events) (hMem : .plan (.planTaskAdded planId taskId position dependsOn) ∈ events) :
    (events.foldl shelters shelter).member planId taskId := by
  obtain ⟨before, after, rfl⟩ := append_of_mem hMem
  have hAfter : Everywhere Event.OnlyJoins after := fun event hEvent =>
    hJoins event (mem_append_right _ (mem_cons_of_mem _ hEvent))
  rw [foldl_append, foldl_cons]
  exact (foldl_joins hAfter).2 planId taskId (.inr ⟨rfl, rfl⟩)

theorem SafeFrom.of_joins (hJoins : Everywhere Event.OnlyJoins events) (hWhole : shelter.Whole) :
    SafeFrom shelter events := by
  apply SafeFrom.of_steady fun event hMem => (hJoins event hMem).steady
  intro id hTask
  obtain ⟨planId, hMember⟩ := hWhole id ((foldl_joins hJoins).1 id hTask)
  exact ⟨planId, (foldl_joins hJoins).2 planId id hMember⟩

theorem Event.shelters_restored {new : NewTask} {id : TaskId} (hId : new.id = some id) (hTask : shelter.task id)
    (hStored : ∀ key, shelter.stored id key ↔ key = new.externalKey) :
    shelters shelter (.task (.taskCreated new)) = shelter := by
  rw [Event.shelters_taskCreated]
  obtain ⟨task, member, stored⟩ := shelter
  congr 1
  · funext other
    by_cases hSame : other = id
    · rw [hSame]
      exact propext ⟨fun _ => hTask, .inl⟩
    · simp [hId, Ne.symm hSame]
  · funext other key
    by_cases hSame : id = other
    · subst hSame
      have hKey : stored id key ↔ key = new.externalKey := hStored key
      simp [storedWith, hId, hKey, eq_comm]
    · simp [storedWith, hId, hSame]

/-- What is persisted in place of an event, as far as it matters here. -/
structure Event.Replaces (replacing event : Event) : Prop where
  shelters : ∀ before, Event.shelters before replacing = Event.shelters before event
  steady : event.Steady → replacing.Steady
  standsIn : ∀ shelter, event.StandsIn shelter → replacing.StandsIn shelter

theorem Event.Replaces.refl (event : Event) : Event.Replaces event event := ⟨fun _ => rfl, id, fun _ => id⟩

theorem SafeFrom.map (hReplaces : ∀ event, (f event).Replaces event) (h : SafeFrom shelter events) :
    SafeFrom shelter (events.map f) := by
  induction events generalizing shelter with
  | nil => exact h
  | cons event rest ih =>
    refine ⟨?_, ?_⟩
    · rcases h.1 with hSteady | hStands | hWhole
      · exact .inl ((hReplaces event).steady hSteady)
      · exact .inr (.inl ((hReplaces event).standsIn shelter hStands))
      · exact .inr (.inr hWhole)
    · rw [(hReplaces event).shelters]
      exact ih h.2

theorem Handler.relinking_replaces (hRelinking : Handler.Relinking f) (event : Event) : (f event).Replaces event := by
  rcases hRelinking with rfl | ⟨origin, rfl⟩
  · exact .refl event
  · unfold Handler.relinkEvent
    split
    · refine ⟨fun before => ?_, fun hSteady => absurd hSteady (cons_ne_nil _ _), fun _ h => h⟩
      rw [Event.shelters_taskCreated, Event.shelters_taskCreated]
      congr 1
      · simp
      · funext id key
        simp [storedWith]
    · exact .refl event

theorem Handler.authenticated_replaces (caller : Caller) (event : Event) :
    (Handler.authenticated caller event).Replaces event := by
  rcases Handler.authenticated_cases caller event with hSame | ⟨_, _, rfl, hSame⟩
  · rw [hSame]
    exact .refl event
  · rw [hSame]
    exact ⟨fun _ => rfl, fun _ => trivial, fun _ h => h⟩

end

namespace Command

/-- The tasks that the command creates have new ids, each its own, and a task that leaves
a plan is in another one. -/
structure KeepsPlans (db : Database) (env : Env) (command : Command) : Prop where
  new : ∀ intake ∈ command.intakes env, intake.isNew db = true → db.tasks.find? intake.id = none
  distinct : (((command.intakes env).filter (Intake.isNew db)).map Intake.id).Nodup
  stays : ∀ planId taskId, command = .plan (.removePlanTask planId taskId) → (db.tasks.find? taskId).isSome = true →
    ∃ member ∈ db.planTasks, member.taskId = taskId ∧ member.planId ≠ planId

end Command

section

variable {config : Config} {db : Database} {env : Env} {actor : Actor} {shelter : Shelter}

namespace TaskCommands

theorem createTask_refused {new : NewTask} {post : List Event → Prop} (hPlanOnly : config.planOnlyIntake = true) :
    Yields (createTask config db env actor new) post := by
  refine .andThen fun _ hAllowed => ?_
  rw [ensure_eq_ok, hPlanOnly] at hAllowed
  cases hAllowed

variable {patch : TaskPatch} {id : TaskId} {subtasks : List NewTask}

theorem normalizePatch_planOwned :
    Yields (normalizePatch patch) fun normal => planOwnedPatchFields normal = planOwnedPatchFields patch := by
  unfold normalizePatch
  split
  · exact .andThen fun _ _ => .pure rfl
  · exact .pure rfl

theorem updateTask_landsNothing (hPlanOnly : config.planOnlyIntake = true) :
    Yields (updateTask config db id patch) LandsNothing := by
  refine .andThen fun _ _ => .andThen fun _ hAllowed => .bind normalizePatch_planOwned fun normal hNormal => .andThen
    fun _ _ => .andThen fun _ _ => .andThen fun _ _ => .pure (.cons ?_ .nil)
  rw [ensureNotPlanOwned, ensure_eq_ok, hPlanOnly] at hAllowed
  show (planOwnedPatchFields normal).isEmpty = true
  rw [hNormal]
  exact hAllowed

theorem deleteTask_safe (hPlanned : Planned db) :
    Stateful.Yields (deleteTask db env id) (SafeFrom (of db)) := by
  have hUnlink : ∀ relation, Stateful.Yields (unlink env.now relation)
      (Everywhere fun event => event.Still ∧ event.Steady) :=
    fun _ => .andThen fun _ => .andThen fun _ => .pure (.cons ⟨fun _ => rfl, trivial⟩ .nil)
  have hLeft : ∀ (plans : List Plan) (shelter : Shelter),
      (∀ other, ((plans.map fun plan => Event.plan (.planTaskRemoved plan.id id)).foldl shelters shelter).task other →
        shelter.task other) ∧
      ∀ planId other, other ≠ id → shelter.member planId other →
        ((plans.map fun plan => Event.plan (.planTaskRemoved plan.id id)).foldl shelters shelter).member planId other := by
    intro plans
    induction plans with
    | nil => exact fun shelter => ⟨fun _ h => h, fun _ _ _ h => h⟩
    | cons plan rest ih =>
      intro shelter
      have hLater := ih (shelters shelter (.plan (.planTaskRemoved plan.id id)))
      refine ⟨hLater.1, fun planId other hOther hMember => hLater.2 planId other hOther ⟨hMember, ?_⟩⟩
      exact fun hRemoved => hOther hRemoved.2
  refine .andThen fun _ => .andThen fun _ => .andThen fun relations =>
    .bind (.collect fun relation _ => hUnlink relation) fun unlinked hUnlinked => .pure ?_
  rw [append_assoc, append_assoc]
  apply SafeFrom.after_steady hUnlinked
  refine SafeFrom.after_steady (forall_mem_map.mpr fun taskId _ => ⟨Event.still_of_nothing rfl, rfl⟩) ?_
  refine SafeFrom.of_steady ?_ ?_
  · refine forall_mem_append.mpr ⟨forall_mem_map.mpr fun _ _ => ?_, forall_mem_singleton.mpr ?_⟩
    · exact trivial
    · exact rfl
  rw [foldl_append]
  rintro other ⟨hOther, hTask⟩
  obtain ⟨hTasks, hMembers⟩ := hLeft (PlanRepo.listPlansForTask db id) (of db)
  obtain ⟨planId, hMember⟩ := of_whole hPlanned other (hTasks other hTask)
  exact ⟨planId, hMembers planId other hOther hMember⟩

theorem prepareSubtasks_ids {parent : Task} {n : Nat} : (prepareSubtasks env parent n subtasks).map NewTask.id =
      (subtasks.mapIdx fun k child => child.id.getD (env.fresh (n + k))).map some := by
  induction subtasks generalizing n with
  | nil => rfl
  | cons child rest ih =>
    rw [mapIdx_cons, map_cons, prepareSubtasks, map_cons, ih]
    simp [Nat.add_assoc, Nat.add_comm 1]

theorem splitTask_safe {parent : TaskId} (hPlanOnly : config.planOnlyIntake = true)
    (hPlanned : Planned db) (hKeeps : (Command.task (.splitTask parent subtasks)).KeepsPlans db env) :
    Yields (splitTask config db env parent subtasks) (SafeFrom (of db)) := by
  have hWhole := of_whole hPlanned
  refine .andThen fun _ _ => .andThen fun parentTask _ => ?_
  let known := prepareSubtasks env parentTask 0 subtasks
  have hUnique : ∀ child ∈ known, ∀ other ∈ known, other.id = child.id → other = child := by
    have hDistinct : (known.map NewTask.id).Nodup := by
      have hAllNew : ((Command.task (.splitTask parent subtasks)).intakes env).filter (Intake.isNew db) =
          (Command.task (.splitTask parent subtasks)).intakes env := by
        refine filter_eq_self.mpr fun intake hIntake => ?_
        obtain ⟨n, _, rfl⟩ := mem_mapIdx.mp hIntake
        rfl
      have hNodup := hKeeps.distinct
      rw [hAllNew] at hNodup
      rw [prepareSubtasks_ids]
      refine List.Nodup.map (fun _ _ => Option.some.inj) ?_
      simpa [Command.intakes, mapIdx_eq_zipIdx_map, Function.comp_def] using hNodup
    intro child hChild other hOther hSame
    exact inj_on_of_nodup_map hDistinct hOther hChild hSame
  let split := shelters (of db) (.task (.taskSplitGenerated parent known))
  have hStored : ∀ child ∈ known, ∀ id, child.id = some id → ∀ key, split.stored id key ↔ key = child.externalKey := by
    intro child hChild id hId key
    show storedWith known _ id key ↔ _
    constructor
    · rintro (⟨_, hAll⟩ | ⟨hNone, _⟩)
      · exact (hAll child hChild hId).symm
      · exact absurd hId (hNone child hChild)
    · rintro rfl
      refine .inl ⟨⟨child, hChild, hId⟩, fun other hOther hOtherId => ?_⟩
      rw [hUnique child hChild other hOther (hOtherId.trans hId.symm)]
  have hCreated : ∀ children : List NewTask, (∀ child ∈ children, child ∈ known) → ∀ later, SafeFrom split later →
      SafeFrom split ((children.map fun child => Event.task (.taskCreated child)) ++ later) := by
    intro children hKnown later hLater
    induction children with
    | nil => exact hLater
    | cons child rest ih =>
      have hChild := hKnown child mem_cons_self
      obtain ⟨id, hId⟩ := prepareSubtasks_id hChild
      have hRestored : shelters split (.task (.taskCreated child)) = split :=
        Event.shelters_restored hId (.inr ⟨child, hChild, hId⟩) (hStored child hChild id hId)
      refine ⟨.inr (.inl ⟨id, hId, (hStored child hChild id hId _).mpr rfl⟩), ?_⟩
      rw [hRestored]
      exact ih fun child hMem => hKnown child (mem_cons_of_mem _ hMem)
  refine .ite (fun _ => .andThen fun _ hSome => .pure ⟨.inr (.inr hWhole), ?_⟩) fun hNot => absurd hPlanOnly hNot
  refine hCreated known (fun _ h => h) _ ?_
  have hJoins : Everywhere Event.OnlyJoins
      ((PlanRepo.listPlansForTask db parent).flatMap (amendPlanEvents db known)) := by
    refine .flatMap fun plan => .append (fun event hEvent => ?_) (.cons .modified .nil)
    obtain ⟨entry, _, hEntry⟩ := mem_filterMap.mp hEvent
    obtain ⟨id, _, rfl⟩ := Option.map_eq_some_iff.mp hEntry
    exact .added
  apply SafeFrom.of_steady fun event hMem => (hJoins event hMem).steady
  intro id hTask
  rcases (foldl_joins hJoins).1 id hTask with hOld | ⟨child, hChild, hId⟩
  · obtain ⟨planId, hMember⟩ := hWhole id hOld
    exact ⟨planId, (foldl_joins hJoins).2 planId id hMember⟩
  · -- The parent is in a plan, which the child joins.
    rw [ensure_eq_ok] at hSome
    obtain ⟨plan, hPlan⟩ := exists_mem_of_ne_nil (PlanRepo.listPlansForTask db parent) (by simpa using hSome)
    obtain ⟨k, hIndex⟩ := mem_iff_getElem?.mp hChild
    have hAdded : .plan (.planTaskAdded plan.id id (nextPosition (PlanRepo.listTasksOrdered db plan.id) + k) []) ∈
        (PlanRepo.listPlansForTask db parent).flatMap (amendPlanEvents db known) := by
      refine mem_flatMap.mpr ⟨plan, hPlan, mem_append_left _ ?_⟩
      refine mem_filterMap.mpr ⟨(child, k), mem_zipIdx_iff_getElem?.mpr hIndex, ?_⟩
      dsimp only
      rw [hId]
      rfl
    exact ⟨plan.id, foldl_joined hJoins hAdded⟩

theorem buildEvents_safe {command : TaskCommand} (hPlanOnly : config.planOnlyIntake = true) (hPlanned : Planned db)
    (hKeeps : (Command.task command).KeepsPlans db env) :
    Stateful.Yields (buildEvents config db env actor command) (SafeFrom (of db)) := by
  have hWhole := of_whole hPlanned
  cases command with
  | createTask new => exact .lift (createTask_refused hPlanOnly)
  | updateTask id patch => exact .lift (.mono (updateTask_landsNothing hPlanOnly) fun _ h => .of_nothing h hWhole)
  | deleteTask id => exact deleteTask_safe hPlanned
  | splitTask parent subtasks => exact .lift (splitTask_safe hPlanOnly hPlanned hKeeps)
  | _ => exact .mono (buildEvents_landsNothing rfl) fun _ h => .of_nothing h hWhole

end TaskCommands

namespace PlanCommands

theorem commentEvents_still (comment : Comment) : Everywhere (fun event => event.Still ∧ event.Steady) (commentEvents comment) :=
  .cons ⟨fun _ => rfl, trivial⟩ (.cons ⟨fun _ => rfl, trivial⟩ .nil)

theorem materializedTaskEvents_safe {target : MaterializeTarget} {tasks : List NewTask} {n position : Nat}
    {batchKeys : List String} :
    Yields (materializedTaskEvents db env target actor n position batchKeys tasks) fun events => ∀ shelter : Shelter,
      shelter.Whole → (∀ id ∈ target.members, shelter.member target.planId id) → SafeFrom shelter events := by
  induction tasks generalizing n position batchKeys with
  | nil => exact .ok fun shelter hWhole _ => hWhole
  | cons task rest ih =>
    refine .andThen fun prepared _ => .andThen fun keys _ => .andThen fun ⟨id, events⟩ hEvents => ?_
    -- Once the events of the task are taken, it is a member, or a task that was in a plan.
    have hTask : ∀ shelter : Shelter, shelter.Whole → ∀ later, (∀ after : Shelter,
        (∀ other, after.task other → shelter.task other ∨ other = id) → after.member = shelter.member →
          SafeFrom after later) → SafeFrom shelter (events ++ later) := by
      intro shelter hWhole later hLater
      rcases materializedTask_ok hEvents with ⟨_, existing, _, _, _, rfl, rfl⟩ | ⟨_, rfl, rfl⟩
      · exact .after_steady (commentEvents_still _) (hLater shelter (fun _ h => .inl h) rfl)
      · have hRest : Everywhere (fun event => event.Still ∧ event.Steady) ((target.gitContext.map fun context =>
            Event.task (.taskUpdated (prepared.id.getD ((env.part n).fresh 0))
              { TaskPatch.none with gitContext := some (some context) })).toList ++
            ((target.sourceNote.map fun note => taskCommentEvents (((env.part n)).part 2)
              (prepared.id.getD ((env.part n).fresh 0)) note actor).getD [])) := by
          refine .append ?_ ?_
          · cases target.gitContext with
            | none => exact .nil
            | some context => exact .cons ⟨Event.still_of_nothing rfl, rfl⟩ .nil
          · cases target.sourceNote with
            | none => exact .nil
            | some note => exact commentEvents_still _
        refine ⟨.inr (.inr hWhole), .after_steady hRest (hLater _ (fun other hOther => ?_) rfl)⟩
        rcases hOther with hOld | ⟨new, hNew, hIs⟩
        · exact .inl hOld
        · rw [mem_singleton.mp hNew] at hIs
          exact .inr (Option.some.inj hIs).symm
    have hJoined : ∀ (shelter : Shelter) (place : Nat), shelter.Whole → (∀ id ∈ target.members, shelter.member target.planId id) →
        ∀ later, (∀ after : Shelter, after.Whole → (∀ id ∈ target.members, after.member target.planId id) → SafeFrom after later) →
          SafeFrom shelter (events ++ .plan (.planTaskAdded target.planId id place []) :: later) := by
      intro shelter place hWhole hMembers later hLater
      refine hTask shelter hWhole _ fun after hTasks hSame => ⟨.inl trivial, hLater _ ?_ ?_⟩
      · intro other hOther
        rcases hTasks other hOther with hOld | rfl
        · obtain ⟨planId, hMember⟩ := hWhole other hOld
          exact ⟨planId, .inl (hSame ▸ hMember)⟩
        · exact ⟨target.planId, .inr ⟨rfl, rfl⟩⟩
      · exact fun id hMember => .inl (hSame ▸ hMembers id hMember)
    refine .ite (fun hMember => .bind ih fun later hLater => .pure fun shelter hWhole hMembers => ?_)
      fun _ => .bind ih fun later hLater => .pure fun shelter hWhole hMembers =>
        hJoined shelter position hWhole hMembers later fun after => hLater after
    refine hTask shelter hWhole _ fun after hTasks hSame => hLater after ?_ ?_
    · intro other hOther
      rcases hTasks other hOther with hOld | rfl
      · obtain ⟨planId, hIn⟩ := hWhole other hOld
        exact ⟨planId, hSame ▸ hIn⟩
      · exact ⟨target.planId, hSame ▸ hMembers _ hMember⟩
    · exact fun id hIn => hSame ▸ hMembers id hIn

theorem buildEvents_safe {command : PlanCommand} (hPlanned : Planned db)
    (hKeeps : (Command.plan command).KeepsPlans db env) :
    Yields (buildEvents config db env actor command) (SafeFrom (of db)) := by
  have hWhole := of_whole hPlanned
  cases command with
  | createPlan plan externalRef =>
    exact createPlan_rule hWhole fun _ _ => .of_still (.cons (fun _ => rfl) .nil) hWhole
  | materializePlan plan tasks planId =>
    cases planId with
    | none =>
      refine .andThen fun _ _ => .andThen fun created _ => .bind materializedTaskEvents_safe fun _ hSafe => .pure ?_
      exact ⟨.inl trivial, hSafe _ hWhole fun _ hMember => absurd hMember not_mem_nil⟩
    | some planId =>
      refine .andThen fun _ _ => .andThen fun existing _ => .bind reopenEvents_landsNothing fun reopened hReopened =>
        .andThen fun _ _ => .andThen fun _ _ => .bind materializedTaskEvents_safe fun _ hSafe => .pure ?_
      refine .after_still (fun event hMem => event.still_of_nothing (hReopened event hMem)) hWhole ?_
      refine hSafe _ hWhole fun id hMember => ?_
      obtain ⟨member, hListed, rfl⟩ := mem_map.mp hMember
      obtain ⟨hRow, hIn⟩ := mem_filter.mp ((perm_insertionSort _ _).mem_iff.mp hListed)
      exact ⟨member, hRow, of_decide_eq_true hIn, rfl⟩
  | amendPlanTask planId taskId patch =>
    refine .andThen fun _ _ => .andThen fun _ _ => .andThen fun _ _ => .andThen fun _ _ => .andThen fun _ _ =>
      .andThen fun _ _ => .pure (.of_still (.cons (fun _ => rfl) (.cons ?_ (.cons (fun _ => rfl) .nil))) hWhole)
    exact fun before => Event.shelters_task rfl (fun _ hIs => nomatch hIs)
  | deletePlan id =>
    refine .andThen fun _ _ => .andThen fun _ hEmpty => .pure ⟨.inl trivial, .of_nothing (abortedRuns_landsNothing _ _) ?_⟩
    rintro taskId hTask
    obtain ⟨planId, member, hRow, rfl, hIs⟩ := hWhole taskId hTask
    refine ⟨member.planId, ⟨member, hRow, rfl, hIs⟩, fun hDeleted => ?_⟩
    -- The plan is deleted without members.
    have hListed : member ∈ PlanRepo.listTasksOrdered db id :=
      (perm_insertionSort _ _).mem_iff.mpr (mem_filter.mpr ⟨hRow, decide_eq_true hDeleted⟩)
    rw [ensure_eq_ok, decide_eq_true_eq, length_eq_zero_iff] at hEmpty
    rw [hEmpty] at hListed
    cases hListed
  | removePlanTask planId taskId =>
    refine .andThen fun _ _ => .pure ⟨.inl trivial, .of_nothing ?_ ?_⟩
    · split
      · exact .cons rfl (.cons rfl .nil)
      · exact .nil
    · rintro id hTask
      by_cases hSame : id = taskId
      · subst hSame
        obtain ⟨task, hStored, hId⟩ := hTask
        obtain ⟨member, hMember, hIs, hOther⟩ := hKeeps.stays planId id rfl (by rw [← hId, KeyedTable.find?_of_mem hStored]; rfl)
        exact ⟨member.planId, ⟨member, hMember, rfl, hIs⟩, fun hRemoved => hOther hRemoved.1⟩
      · obtain ⟨other, hMember⟩ := hWhole id hTask
        exact ⟨other, hMember, fun hRemoved => hSame hRemoved.2⟩
  | addPlanTask planId taskId position dependsOn =>
    exact .map (.andThen fun _ _ => .andThen fun _ _ => .pure (.of_joins (.cons .added (.cons .modified .nil)) hWhole))
  | bulkAttachToPlan planId taskIds =>
    refine .map (.andThen fun _ _ => .andThen fun _ _ => .andThen fun _ _ => .ite (fun _ => .pure hWhole) fun _ => .pure ?_)
    refine .of_joins ?_ hWhole
    rw [map_append, map_map]
    exact .append (.map fun _ => .added) (.cons .modified .nil)
  | _ => exact .mono (buildEvents_landsNothing rfl) fun _ h => .of_nothing h hWhole

end PlanCommands

theorem buildEvents_safe {command : Command} (hPlanOnly : config.planOnlyIntake = true) (hPlanned : Planned db)
    (hKeeps : command.KeepsPlans db env) :
    Stateful.Yields (buildEvents config db env actor command) (SafeFrom (of db)) := by
  have hWhole := of_whole hPlanned
  cases command with
  | plan command => exact .lift (PlanCommands.buildEvents_safe hPlanned hKeeps)
  | task command => exact TaskCommands.buildEvents_safe hPlanOnly hPlanned hKeeps
  | project command =>
    cases command with
    | createProject | updateProject =>
      refine .lift (.map (.andThen fun _ _ => ?_))
      first
        | exact .pure (.of_still (.cons (fun _ => rfl) .nil) hWhole)
        | exact .andThen fun _ _ => .pure (.of_still (.cons (fun _ => rfl) .nil) hWhole)
    | _ => exact .mono (buildEvents_landsNothing rfl) fun _ h => .of_nothing h hWhole
  | _ => exact .mono (buildEvents_landsNothing rfl) fun _ h => .of_nothing h hWhole

end

namespace Handler

variable {config : Config} {db db' : Database} {env : Env} {caller : Caller} {actor claimed : Actor} {command : Command}
  {batch : List Event} {relations : Relations} {trail : GateStage.Trail} {persisted : List EventEnvelope}
  {appended : Database} {outcome : Except CoreError DispatchOutcome}

theorem Resolves.keepsPlans {sourced : Sourced} (h : Resolves config db env command sourced)
    (hKeeps : command.KeepsPlans db env) : sourced.command.KeepsPlans db env := by
  refine ⟨?_, ?_, fun planId taskId hIs => ?_⟩
  · rw [h.intakes]
    exact hKeeps.new
  · rw [h.intakes]
    exact hKeeps.distinct
  · rcases h.same with hSame | ⟨_, _, _, hMaterializes⟩ | ⟨_, _, hCreates⟩
    · exact hKeeps.stays planId taskId (hSame.symm.trans hIs)
    · cases hMaterializes.symm.trans hIs
    · cases hCreates.symm.trans hIs

theorem unreconciled_safe (hPlanOnly : config.planOnlyIntake = true) (hPlanned : Planned db)
    (hKeeps : command.KeepsPlans db (env.part 1)) :
    Stateful.Yields (unreconciled config db env caller actor command) (SafeFrom (of db)) := by
  refine .bind (.lift (@resolveSource_resolves config db _ (env.part 1) actor command)) fun sourced hResolves =>
    .bind (buildEvents_safe hPlanOnly hPlanned (hResolves.keepsPlans hKeeps)) fun built hBuilt => .pure ?_
  apply SafeFrom.map (authenticated_replaces caller)
  unfold withSource
  split
  · exact .after_still (fun event hMem => event.still_of_nothing (hResolves.linked event hMem))
      (of_whole hPlanned) hBuilt
  · exact hBuilt

theorem Accepted.safe_planned
    (h : Accepted config env caller command claimed db batch relations trail persisted appended)
    (hPlanOnly : config.planOnlyIntake = true) (hPlanned : Planned db) (hKeeps : command.KeepsPlans db (builderEnv env)) :
    SafeFrom (of db) (persisted.map EventEnvelope.payload) := by
  obtain ⟨warnings, hDraft⟩ := h.built
  obtain ⟨events, hEvents, hBatch⟩ := draft_unreconciled hDraft
  obtain ⟨f, audit, metrics, releases, hRelinking, hAudit, hMetrics, hReleases, hPayloads⟩ := h.payloads
  have hAudits : ∀ event : Event, event.isAudit = true → event.Still := by
    intro event hIs
    cases event with
    | audit => exact fun _ => rfl
    | _ => cases hIs
  have hBuilt : SafeFrom (of db) batch := by
    rw [hBatch]
    refine .append (unreconciled_safe hPlanOnly hPlanned hKeeps _ _ _ hEvents) fun after hWhole => .of_still ?_ hWhole
    refine forall_mem_map.mpr fun closure hClosure => ?_
    obtain ⟨planId, fromStatus, rfl⟩ := Reconciliation.drain_closes hClosure
    exact fun _ => rfl
  rw [hPayloads, append_assoc, append_assoc]
  refine .after_still (fun event hMem => hAudits event (hAudit event hMem)) (of_whole hPlanned) ?_
  refine .append (hBuilt.map (relinking_replaces hRelinking)) fun after hWhole => .of_still (.append ?_ ?_) hWhole
  · exact fun event hMem => hAudits event (hMetrics event hMem)
  · intro event hMem
    obtain ⟨_, _, _, rfl⟩ := hReleases event hMem
    exact fun _ => rfl

end Handler

structure Sheltered (db : Database) : Prop where
  keys : TaskRepo.KeysDistinct db.tasks
  planned : Planned db

def KeepsSheltered (before after : Database) : Prop := Sheltered before → Sheltered after

namespace Server

open Handler (builderEnv)

variable {config : Config} {db : Database} {call : Call}

def KeepsPlans (db : Database) : Call → Prop
  | .command env _ command _ => command.KeepsPlans db (builderEnv env)
  | _ => True

theorem command_sheltered {env : Env} {caller : Caller} {command : Command} {claimed : Actor}
    (hPlanOnly : config.planOnlyIntake = true) (hKeeps : command.KeepsPlans db (builderEnv env)) :
    KeepsSheltered db (serve config db (.command env caller command claimed)) := by
  intro hSheltered
  refine ⟨serve_keepKeys db _ hSheltered.keys, ?_⟩
  have hServed : Sheltered (Handler.handleWithRunOwner config env caller command claimed db).2 := by
    refine Handler.handle_rule (fun hAudited => ?_) (fun {_ _ _ _ appended _ _} hAccepted hApplied => ?_)
      fun ⟨_, _, _, _, _, _, hLines, _⟩ hKept => ?_
    · obtain ⟨_, _, _, _, _, _, rfl⟩ := hAudited
      exact ⟨hSheltered.keys, hSheltered.planned⟩
    · have hKeys : TaskRepo.KeysDistinct appended.tasks := hAccepted.tasks_eq ▸ hSheltered.keys
      have hShows : (of db).Shows appended := by
        obtain ⟨_, _, _, _, _, rfl⟩ := hAccepted.frame
        exact (of_shows db).congr rfl rfl
      exact ⟨Projections.applyEvents_keepKeys hApplied hKeys, Projections.applyEvents_planned hAccepted.namesCreated hKeys
        (hAccepted.safe_planned hPlanOnly hSheltered.planned hKeeps) hShows hApplied⟩
    · rw [hLines]
      exact ⟨hKept.keys, hKept.planned⟩
  exact hServed.planned

theorem serve_sheltered (hPlanOnly : config.planOnlyIntake = true) (hKeeps : KeepsPlans db call) :
    KeepsSheltered db (serve config db call) := by
  cases call with
  | command env caller command claimed => exact command_sheltered hPlanOnly hKeeps
  | _ =>
    refine serve_rule rfl fun ⟨_, _, _, _, _, _, hFrame, _⟩ hSheltered => ?_
    rw [hFrame]
    exact ⟨hSheltered.keys, hSheltered.planned⟩

end Server
end Daruma
