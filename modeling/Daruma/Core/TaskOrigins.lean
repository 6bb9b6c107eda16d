import Daruma.Core.WarrantedBatches

/-! Where tasks and plans come from, and in which projects they are: what the events
of a batch can add to what is stored. -/
namespace Daruma

open KeyedTable

/-- The tasks and the plans that there may be, each with its project, and the
projects, each with its tenant. -/
structure Origins where
  task : TaskId → Option ProjectId → Prop
  plan : PlanId → ProjectId → Prop
  project : ProjectId → Option String → Prop

/-- There are no others. -/
structure Origins.Cover (origins : Origins) (db : Database) : Prop where
  tasks : ∀ task ∈ db.tasks, origins.task task.id task.projectId
  plans : ∀ plan ∈ db.plans, origins.plan plan.id plan.projectId
  projects : ∀ project ∈ db.projects, origins.project project.id project.tenantId

/-- The tasks, plans and projects of an event are among them. A task that joins a plan
takes the project of the plan when it has none, and a project that is rewritten
without a tenant the default one. -/
def Event.Lands (origins : Origins) : Event → Prop
  | .task (.taskCreated new) => ∃ id, new.id = some id ∧ origins.task id new.projectId
  | .task (.taskSplitGenerated _ subtasks) =>
    ∀ new ∈ subtasks, ∃ id, new.id = some id ∧ origins.task id new.projectId
  | .task (.taskUpdated id patch) => ∀ projectId, patch.projectId = some projectId → origins.task id projectId
  | .plan (.planCreated created) => origins.plan created.id created.projectId
  | .plan (.planTaskAdded planId taskId ..) => origins.task taskId none →
      ∀ projectId, origins.plan planId projectId → origins.task taskId (some projectId)
  | .project (.projectCreated created) =>
    origins.project created.id (some (created.tenantId.getD ProjectRepo.defaultTenantId))
  | .project (.projectUpdated id ..) =>
    ∀ tenant, origins.project id tenant → origins.project id (some (tenant.getD ProjectRepo.defaultTenantId))
  | _ => True

theorem planOwnedPatchFields_isEmpty {patch : TaskPatch} (h : (planOwnedPatchFields patch).isEmpty = true) :
    patch.title = none ∧ patch.description = none ∧ patch.projectId = none := by
  unfold planOwnedPatchFields at h
  cases hTitle : patch.title <;> cases hDescription : patch.description <;> cases hProject : patch.projectId <;>
    simp_all

theorem Event.Lands.of_nothing {origins : Origins} {event : Event} (h : event.landsNothing = true) : event.Lands origins := by
  cases event with
  | task event =>
    cases event with
    | taskCreated | taskSplitGenerated => cases h
    | taskUpdated id patch =>
      intro projectId hProject
      have hNone : patch.projectId = none := (planOwnedPatchFields_isEmpty h).2.2
      cases hNone.symm.trans hProject
    | _ => exact trivial
  | plan event =>
    cases event with
    | planCreated | planTaskAdded => cases h
    | _ => exact trivial
  | project event =>
    cases event with
    | projectCreated | projectUpdated => cases h
    | _ => exact trivial
  | _ => exact trivial

theorem forall_modified {Key Row : Type} [DecidableEq Key] {key : Row → Key} {table : KeyedTable Key Row key} {k : Key}
    {f : Row → Row} {property : Row → Prop} (hKey : ∀ row, key (f row) = key row) (h : ∀ row ∈ table, property row)
    (hChanged : ∀ row ∈ table, key row = k → property (f row)) : ∀ row ∈ table.modify k f, property row := by
  intro row hRow
  obtain ⟨old, hOld, hIs, rfl⟩ | ⟨hOld, _⟩ := (mem_modify hKey).mp hRow
  · exact hChanged old hOld hIs
  · exact h row hOld

namespace TaskRepo

variable {tasks tasks' : Tasks} {env : Env} {envelope : EventEnvelope} {origin : TaskId → Option ProjectId → Prop}

def Covered (origin : TaskId → Option ProjectId → Prop) (tasks : Tasks) : Prop :=
  ∀ task ∈ tasks, origin task.id task.projectId

theorem Covered.upsert {task : Task} (h : Covered origin tasks) (hTask : origin task.id task.projectId)
    (hUpserted : upsertTask tasks task = .ok tasks') : Covered origin tasks' := by
  intro row hRow
  have hFound := find?_of_mem hRow
  rw [find?_upsertTask hUpserted] at hFound
  split at hFound
  · cases hFound
    exact hTask
  · exact h row (mem_of_find? hFound)

theorem Covered.update {id : TaskId} {f : Task → Task} (h : Covered origin tasks)
    (hUpdated : updateTask tasks id f = .ok tasks') (hId : ∀ task, (f task).id = task.id)
    (hProject : ∀ task, origin id task.projectId → origin id (f task).projectId) : Covered origin tasks' := by
  unfold updateTask at hUpdated
  split at hUpdated
  · cases hUpdated
    exact h
  · rename_i task hFound
    have hKey : task.id = id := key_of_find? hFound
    apply h.upsert _ hUpdated
    rw [hId, hKey]
    exact hProject task (hKey ▸ h task (mem_of_find? hFound))

theorem Covered.inserted {new : NewTask} {sourceEventId : Option EventId} {minted : TaskId} (h : Covered origin tasks)
    (hNew : ∃ id, new.id = some id ∧ origin id new.projectId)
    (hUpserted : upsertTask tasks (newTaskRow envelope sourceEventId minted new) = .ok tasks') : Covered origin tasks' := by
  obtain ⟨id, hId, hOrigin⟩ := hNew
  apply h.upsert _ hUpserted
  show origin (new.id.getD minted) new.projectId
  rw [hId]
  exact hOrigin

theorem Covered.subtasks {subtasks : List NewTask} {n : Nat} (h : Covered origin tasks)
    (hNew : ∀ new ∈ subtasks, ∃ id, new.id = some id ∧ origin id new.projectId)
    (hInserted : insertSubtasks env envelope tasks n subtasks = .ok tasks') : Covered origin tasks' := by
  induction subtasks generalizing tasks n with
  | nil =>
    cases hInserted
    exact h
  | cons new rest ih =>
    obtain ⟨hFirst, hRest⟩ := List.forall_mem_cons.mp hNew
    unfold insertSubtasks at hInserted
    split at hInserted
    · cases hInserted
    · rename_i middle hMiddle
      exact ih (h.inserted hFirst hMiddle) hRest hInserted

theorem Covered.applyTaskEvent {origins : Origins} {event : TaskEvent} (h : Covered origins.task tasks)
    (hEvent : (Event.task event).Lands origins) (hApplied : applyTaskEvent tasks env envelope event = .ok tasks') :
    Covered origins.task tasks' := by
  have hRewritten : ∀ {id : TaskId} {f : Task → Task}, updateTask tasks id f = .ok tasks' →
      (∀ task, (f task).id = task.id) → (∀ task, (f task).projectId = task.projectId) → Covered origins.task tasks' := by
    intro id f hUpdated hId hProject
    exact h.update hUpdated hId fun task hOrigin => (hProject task).symm ▸ hOrigin
  cases event with
  | taskCreated new => exact h.inserted hEvent hApplied
  | taskSplitGenerated parent subtasks => exact h.subtasks hEvent hApplied
  | taskUpdated id patch =>
    unfold TaskRepo.applyTaskEvent at hApplied
    dsimp only at hApplied
    split at hApplied
    · cases hApplied
    rename_i patched hPatched
    have hCovered : Covered origins.task patched := by
      refine h.update hPatched (fun _ => rfl) fun task hOrigin => ?_
      show origins.task id (patch.projectId.getD task.projectId)
      cases hProject : patch.projectId with
      | none => exact hOrigin
      | some projectId => exact hEvent projectId hProject
    split at hApplied
    · cases hApplied
      exact hCovered
    · cases hApplied
      exact forall_modified (fun _ => rfl) hCovered fun row hRow _ => hCovered row hRow
  | taskDeleted id =>
    cases hApplied
    intro row hRow
    exact h row (mem_erase.mp hRow).1
  | taskUnblocked | taskDueElapsed | taskContested =>
    cases hApplied
    exact h
  | _ => exact hRewritten hApplied (fun _ => rfl) fun _ => rfl

end TaskRepo

namespace PlanRepo

variable {db : Database} {env : Env} {envelope : EventEnvelope} {origins : Origins}

variable {planId : PlanId} {instant : Timestamp} {position : Nat}

theorem Covered.modified {f : Plan → Plan} (h : origins.Cover db) (hId : ∀ plan, (f plan).id = plan.id)
    (hProject : ∀ plan, (f plan).projectId = plan.projectId) :
    ∀ plan ∈ db.plans.modify planId f, origins.plan plan.id plan.projectId := by
  refine forall_modified hId h.plans fun plan hPlan _ => ?_
  rw [hId, hProject]
  exact h.plans plan hPlan

theorem Covered.touchPlan (h : origins.Cover db) : origins.Cover (touchPlan db planId instant) := by
  refine ⟨h.tasks, Covered.modified h (fun plan => ?_) fun plan => ?_, h.projects⟩
  · split <;> rfl
  · split <;> rfl

theorem Covered.addTask {taskId : TaskId} {dependsOn : List TaskId} (h : origins.Cover db)
    (hLands : origins.task taskId none → ∀ projectId, origins.plan planId projectId → origins.task taskId (some projectId)) :
    origins.Cover (addTask db planId taskId position dependsOn) := by
  unfold PlanRepo.addTask
  dsimp only
  split
  · refine ⟨forall_modified (fun _ => rfl) h.tasks fun task hTask hIs => ?_, h.plans, h.projects⟩
    show origins.task task.id (task.projectId.or ((db.plans.find? planId).map Plan.projectId))
    have hOrigin := h.tasks task hTask
    cases hProject : task.projectId with
    | some projectId =>
      rw [hProject] at hOrigin
      exact hOrigin
    | none =>
      rw [hProject] at hOrigin
      cases hPlan : db.plans.find? planId with
      | none => exact hOrigin
      | some plan =>
        obtain rfl : plan.id = planId := key_of_find? hPlan
        rw [hIs] at hOrigin ⊢
        exact hLands hOrigin plan.projectId (h.plans plan (mem_of_find? hPlan))
  · exact ⟨h.tasks, h.plans, h.projects⟩

theorem Covered.applyPatch {patch : PlanPatch} (h : origins.Cover db) :
    origins.Cover (applyPatch db env envelope planId patch) := by
  unfold PlanRepo.applyPatch
  split
  · exact h
  rename_i plan hFound
  have hReplaced : ∀ touched : Database, origins.Cover touched →
      origins.Cover { touched with plans := touched.plans.insertOrReplace (patch.apply plan env.now) } := by
    intro touched hTouched
    refine ⟨hTouched.tasks, fun other hOther => ?_, hTouched.projects⟩
    rcases mem_insertOrReplace.mp hOther with rfl | ⟨hOld, _⟩
    · exact h.plans plan (mem_of_find? hFound)
    · exact hTouched.plans other hOld
  dsimp only
  split
  · split
    · exact hReplaced _ (Covered.touchPlan h)
    · exact hReplaced _ h
  · exact hReplaced _ h

theorem Covered.deletePlan (h : origins.Cover db) : origins.Cover (deletePlan db planId instant) := by
  have hErased : ∀ touched : Database, origins.Cover touched → origins.Cover { touched with
      planTasks := touched.planTasks.filter fun member => member.planId ≠ planId
      plans := touched.plans.erase planId } :=
    fun touched hTouched => ⟨hTouched.tasks, fun plan hPlan => hTouched.plans plan (mem_erase.mp hPlan).1,
      hTouched.projects⟩
  unfold PlanRepo.deletePlan
  dsimp only
  split
  · exact hErased _ (Covered.touchPlan h)
  · exact hErased _ h

theorem Covered.reorder {order : List TaskId} (h : origins.Cover db) :
    origins.Cover (reorder db planId position order) := by
  induction order generalizing db position with
  | nil => exact h
  | cons taskId rest ih => exact ih ⟨h.tasks, h.plans, h.projects⟩

theorem Covered.applyPlanEvent {event : PlanEvent} (h : origins.Cover db) (hEvent : (Event.plan event).Lands origins) :
    origins.Cover (applyPlanEvent db env envelope event) := by
  cases event with
  | planCreated plan =>
    refine ⟨h.tasks, fun other hOther => ?_, h.projects⟩
    rcases mem_insertOrReplace.mp hOther with rfl | ⟨hOld, _⟩
    · exact hEvent
    · exact h.plans other hOld
  | planUpdated => exact Covered.applyPatch h
  | planTaskAdded planId taskId position dependsOn => exact Covered.addTask h hEvent
  | planReordered => exact Covered.reorder h
  | planDeleted => exact Covered.deletePlan h
  | sourceUpserted source =>
    show origins.Cover (upsertSource db source)
    unfold upsertSource
    split
    · exact ⟨h.tasks, h.plans, h.projects⟩
    · exact ⟨h.tasks, h.plans, h.projects⟩
  | planSourceSet =>
    refine ⟨h.tasks, Covered.modified h (fun plan => ?_) fun plan => ?_, h.projects⟩
    · split <;> rfl
    · split <;> rfl
  | planStatusChanged | planGoalChanged | planArchived =>
    exact ⟨h.tasks, Covered.modified h (fun _ => rfl) (fun _ => rfl), h.projects⟩
  | planTaskRemoved => exact ⟨h.tasks, h.plans, h.projects⟩
  | planTaskAmended | planModifiedByHuman => exact h

end PlanRepo

namespace ProjectRepo

variable {projects : Projects} {envelope : EventEnvelope} {origins : Origins}

def Covered (origins : Origins) (projects : Projects) : Prop :=
  ∀ project ∈ projects, origins.project project.id project.tenantId

theorem Covered.upsert {project : Project} (h : Covered origins projects)
    (hProject : origins.project project.id (some (project.tenantId.getD defaultTenantId))) :
    Covered origins (upsertProject projects project) := by
  intro other hOther
  rcases mem_insertOrReplace.mp hOther with rfl | ⟨hOld, _⟩
  · exact hProject
  · exact h other (mem_filter.mp hOld).1

theorem Covered.applyProjectEvent {event : ProjectEvent} (h : Covered origins projects)
    (hEvent : (Event.project event).Lands origins) : Covered origins (applyProjectEvent projects envelope event) := by
  cases event with
  | projectCreated project => exact h.upsert hEvent
  | projectUpdated id title description =>
    unfold ProjectRepo.applyProjectEvent
    dsimp only
    split
    · exact h
    · rename_i project hFound
      apply h.upsert
      show origins.project project.id (some (project.tenantId.getD defaultTenantId))
      have hStored := h project (mem_of_find? hFound)
      rw [key_of_find? hFound] at hStored ⊢
      exact hEvent _ hStored
  | projectDeleted id => exact fun project hProject => h project (mem_erase.mp hProject).1
  | projectSettingsChanged => exact h

end ProjectRepo

namespace Projections

variable {env : Env} {envelope : EventEnvelope} {envelopes : List EventEnvelope} {db db' : Database} {origins : Origins}
  {outcome : Except CoreError Unit}

def KeepsCover (origins : Origins) (before after : Database) : Prop := origins.Cover before → origins.Cover after

theorem projectors_keepsCover (hEvent : envelope.payload.Lands origins) {step : Database → Result Database}
    (hStep : step ∈ projectors env envelope) (h : step db = .ok db') : KeepsCover origins db db' := by
  obtain ⟨_, hWrote⟩ := exists_wrote hStep h
  intro hCover
  cases hWrote with
  | tasks hApplied =>
    unfold TaskRepo.applyEvent at hApplied
    split at hApplied
    · rename_i event hPayload
      rw [hPayload] at hEvent
      exact ⟨TaskRepo.Covered.applyTaskEvent hCover.tasks hEvent hApplied, hCover.plans, hCover.projects⟩
    · cases hApplied
      exact hCover
  | records =>
    refine ⟨hCover.tasks, hCover.plans, ?_⟩
    show ProjectRepo.Covered origins (ProjectRepo.applyEvent db.projects envelope)
    unfold ProjectRepo.applyEvent
    split
    · rename_i event hPayload
      rw [hPayload] at hEvent
      exact ProjectRepo.Covered.applyProjectEvent hCover.projects hEvent
    · exact hCover.projects
  | plans hApplied =>
    rw [← hApplied]
    unfold PlanRepo.applyEvent
    split
    · rename_i event hPayload
      rw [hPayload] at hEvent
      exact PlanRepo.Covered.applyPlanEvent hCover hEvent
    · exact hCover
  | _ => exact ⟨hCover.tasks, hCover.plans, hCover.projects⟩

theorem applyEvents_cover (hEvents : ∀ event ∈ envelopes.map EventEnvelope.payload, event.Lands origins)
    (h : applyEvents env envelopes db = (outcome, db')) (hCover : origins.Cover db) : origins.Cover db' := by
  have hKeeps : KeepsCover origins db db' := by
    refine Stateful.inTurn_rel (fun _ h => h) (fun _ _ _ h h' hCover => h' (h hCover)) ?_ h
    intro step hStep before after hTaken
    obtain ⟨envelope, hEnvelope, hProjector⟩ := List.mem_flatMap.mp hStep
    exact projectors_keepsCover (hEvents _ (List.mem_map_of_mem hEnvelope)) hProjector hTaken
  exact hKeeps hCover

end Projections
end Daruma
