import Daruma.Core.PlannedTasks

/-! The fields of a task that plans own: its title, its description and its project. Under
plan-only intake they change through the plans of the task. -/
namespace Daruma

open Outcome List KeyedTable

namespace Event

def rewrites (event : Event) (id : TaskId) : Prop :=
  match event with
  | .task (.taskUpdated taskId patch) => taskId = id ∧ (planOwnedPatchFields patch).isEmpty = false
  | .task event => ∃ new ∈ event.created, new.id = some id
  | _ => False

def joins (event : Event) (id : TaskId) : Prop :=
  match event with
  | .plan (.planTaskAdded _ taskId ..) => taskId = id
  | _ => False

end Event

/-- What plans own of a task is the same, but for a project that it had not. -/
structure SameOwned (joined : TaskId → Prop) (old row : Task) : Prop where
  id : old.id = row.id
  title : row.title = old.title
  description : row.description = old.description
  project : row.projectId = old.projectId ∨ old.projectId = none ∧ joined row.id

/-- What plans own of the tasks that are left is the same, but for some tasks. -/
def KeepsOwned (touched joined : TaskId → Prop) (before after : Database) : Prop :=
  ∀ row ∈ after.tasks, touched row.id ∨ ∃ old ∈ before.tasks, SameOwned joined old row

section

variable {touched joined : TaskId → Prop} {first second third : Database}

theorem SameOwned.refl (row : Task) : SameOwned joined row row := ⟨rfl, rfl, rfl, .inl rfl⟩

theorem KeepsOwned.refl (db : Database) : KeepsOwned touched joined db db := fun row hRow => .inr ⟨row, hRow, .refl row⟩

theorem KeepsOwned.of_same (h : second.tasks = first.tasks) : KeepsOwned touched joined first second := by
  intro row hRow
  rw [h] at hRow
  exact .inr ⟨row, hRow, .refl row⟩

theorem KeepsOwned.trans (h : KeepsOwned touched joined first second) (h' : KeepsOwned touched joined second third) :
    KeepsOwned touched joined first third := by
  intro row hRow
  rcases h' row hRow with hTouched | ⟨middle, hMiddle, hLater⟩
  · exact .inl hTouched
  · rcases h middle hMiddle with hTouched | ⟨old, hOld, hEarlier⟩
    · exact .inl (hLater.id ▸ hTouched)
    · refine .inr ⟨old, hOld, hEarlier.id.trans hLater.id, hLater.title.trans hEarlier.title,
        hLater.description.trans hEarlier.description, ?_⟩
      rcases hEarlier.project with hSame | ⟨hNone, hJoined⟩
      · rcases hLater.project with hKept | ⟨hNone, hJoined⟩
        · exact .inl (hKept.trans hSame)
        · exact .inr ⟨hSame ▸ hNone, hJoined⟩
      · exact .inr ⟨hNone, hLater.id ▸ hJoined⟩

end

namespace TaskRepo

variable {tasks tasks' : Tasks} {env : Env} {envelope : EventEnvelope} {event : TaskEvent} {joined : TaskId → Prop}

theorem mem_updateTask {taskId : TaskId} {f : Task → Task} {row : Task} (h : updateTask tasks taskId f = .ok tasks')
    (hRow : row ∈ tasks') : row ∈ tasks ∨ ∃ old ∈ tasks, old.id = taskId ∧ ∃ position,
      row = { f old with pipelinePosition := position } := by
  unfold updateTask at h
  split at h
  · cases h
    exact .inl hRow
  · rename_i old hFound
    have hAfter := find?_of_mem hRow
    rw [find?_upsertTask h] at hAfter
    split at hAfter
    · cases hAfter
      exact .inr ⟨old, mem_of_find? hFound, key_of_find? hFound, _, rfl⟩
    · exact .inl (mem_of_find? hAfter)

theorem applyTaskEvent_owned (h : applyTaskEvent tasks env envelope event = .ok tasks')
    (hNames : (Event.task event).NamesCreated) :
    ∀ row ∈ tasks', (Event.task event).rewrites row.id ∨ ∃ old ∈ tasks, SameOwned joined old row := by
  intro row hRow
  have hRewritten : ∀ {taskId : TaskId} {f : Task → Task}, updateTask tasks taskId f = .ok tasks' →
      (∀ task, SameOwned joined task (f task)) → ∃ old ∈ tasks, SameOwned joined old row := by
    intro taskId f hUpdated hOwned
    rcases mem_updateTask hUpdated hRow with hOld | ⟨old, hOld, _, position, rfl⟩
    · exact ⟨row, hOld, .refl row⟩
    · exact ⟨old, hOld, (hOwned old).id, (hOwned old).title, (hOwned old).description, (hOwned old).project⟩
  have hInserted : ∀ new ∈ event.created, InsertedAs new row → new.id = some row.id := by
    intro new hNew hInserted
    refine hInserted.id.resolve_left fun hNone => ?_
    have hNamed := hNames new hNew
    rw [hNone] at hNamed
    cases hNamed
  cases event with
  | taskCreated new =>
    rcases upsertNew_row h (find?_of_mem hRow) with hKept | hNew
    · exact .inr ⟨row, mem_of_find? hKept, .refl row⟩
    · exact .inl ⟨new, mem_cons_self, hInserted new mem_cons_self hNew⟩
  | taskSplitGenerated parent subtasks =>
    rcases insertSubtasks_row h (find?_of_mem hRow) with hKept | ⟨new, hNew, hIs⟩
    · exact .inr ⟨row, mem_of_find? hKept, .refl row⟩
    · exact .inl ⟨new, hNew, hInserted new hNew hIs⟩
  | taskUpdated taskId patch =>
    unfold applyTaskEvent at h
    dsimp only at h
    split at h
    · cases h
    rename_i patched hPatched
    have hRows : ∀ row ∈ patched, (Event.task (.taskUpdated taskId patch)).rewrites row.id ∨
        ∃ old ∈ tasks, SameOwned joined old row := by
      intro row hRow
      rcases mem_updateTask hPatched hRow with hOld | ⟨old, hOld, hIs, position, rfl⟩
      · exact .inr ⟨row, hOld, .refl row⟩
      · cases hOwned : (planOwnedPatchFields patch).isEmpty with
        | false => exact .inl ⟨hIs.symm, hOwned⟩
        | true =>
          obtain ⟨hTitle, hDescription, hProject⟩ := planOwnedPatchFields_isEmpty hOwned
          refine .inr ⟨old, hOld, rfl, ?_, ?_, .inl ?_⟩
          · show patch.title.getD old.title = old.title
            rw [hTitle]
            rfl
          · show patch.description.getD old.description = old.description
            rw [hDescription]
            rfl
          · show patch.projectId.getD old.projectId = old.projectId
            rw [hProject]
            rfl
    split at h
    · cases h
      exact hRows row hRow
    · cases h
      refine forall_modified ?_ hRows (fun stamped hStamped _ => ?_) row hRow
      · exact fun _ => rfl
      · refine (hRows stamped hStamped).imp_right fun ⟨old, hOld, hSame⟩ => ?_
        exact ⟨old, hOld, hSame.id, hSame.title, hSame.description, hSame.project⟩
  | taskDeleted taskId =>
    cases h
    exact .inr ⟨row, (mem_erase.mp hRow).1, .refl row⟩
  | taskUnblocked | taskDueElapsed | taskContested =>
    cases h
    exact .inr ⟨row, hRow, .refl row⟩
  | _ => exact .inr (hRewritten h fun _ => ⟨rfl, rfl, rfl, .inl rfl⟩)

end TaskRepo

namespace PlanRepo

variable {db : Database} {env : Env} {envelope : EventEnvelope} {touched joined : TaskId → Prop}

/-- A new member takes the project of its plan when it has none. -/
theorem applyEvent_owned (hJoins : ∀ id, envelope.payload.joins id → joined id) :
    KeepsOwned touched joined db (applyEvent db env envelope) := by
  refine applyEvent_tasks_rule (P := fun tasks => KeepsOwned touched joined db { db with tasks := tasks }) (.refl db)
    fun planId taskId position dependsOn hPayload _ => ?_
  rw [hPayload] at hJoins
  refine forall_modified ?_ (KeepsOwned.refl db) fun old hOld hIs => ?_
  · exact fun _ => rfl
  · refine .inr ⟨old, hOld, rfl, rfl, rfl, ?_⟩
    cases hProject : old.projectId with
    | none => exact .inr ⟨rfl, hJoins old.id hIs.symm⟩
    | some projectId => exact .inl (by simp [hProject])

end PlanRepo

namespace Projections

variable {env : Env} {envelope : EventEnvelope} {envelopes : List EventEnvelope} {db db' : Database}
  {touched joined : TaskId → Prop} {outcome : Except CoreError Unit}

theorem projectors_keepOwned (hNames : envelope.payload.NamesCreated)
    (hRewrites : ∀ id, envelope.payload.rewrites id → touched id) (hJoins : ∀ id, envelope.payload.joins id → joined id)
    {step : Database → Result Database} (hStep : step ∈ projectors env envelope) (h : step db = .ok db') :
    KeepsOwned touched joined db db' := by
  obtain ⟨_, hWrote⟩ := exists_wrote hStep h
  cases hWrote with
  | tasks hApplied =>
    unfold TaskRepo.applyEvent at hApplied
    split at hApplied
    · rename_i event hPayload
      rw [hPayload] at hRewrites hNames
      intro row hRow
      exact (TaskRepo.applyTaskEvent_owned hApplied hNames row hRow).imp_left (hRewrites row.id)
    · cases hApplied
      exact .refl db
  | plans hApplied => exact hApplied ▸ PlanRepo.applyEvent_owned hJoins
  | _ => exact .of_same rfl

theorem applyEvents_keepOwned (hNames : ∀ envelope ∈ envelopes, envelope.payload.NamesCreated)
    (hRewrites : ∀ event ∈ envelopes.map EventEnvelope.payload, ∀ id, event.rewrites id → touched id)
    (hJoins : ∀ event ∈ envelopes.map EventEnvelope.payload, ∀ id, event.joins id → joined id)
    (h : applyEvents env envelopes db = (outcome, db')) : KeepsOwned touched joined db db' := by
  refine Stateful.inTurn_rel .refl (fun _ _ _ => .trans) ?_ h
  intro step hStep before after hTaken
  obtain ⟨envelope, hEnvelope, hProjector⟩ := mem_flatMap.mp hStep
  have hPayload : envelope.payload ∈ envelopes.map EventEnvelope.payload := mem_map_of_mem hEnvelope
  exact projectors_keepOwned (hNames envelope hEnvelope) (hRewrites _ hPayload) (hJoins _ hPayload) hProjector hTaken

end Projections

namespace Command

def Amends (db : Database) (command : Command) (id : TaskId) : Prop :=
  ∃ planId patch, command = .plan (.amendPlanTask planId id patch) ∧
    ∃ member ∈ db.planTasks, member.planId = planId ∧ member.taskId = id

def Attaches (command : Command) (planId : PlanId) (id : TaskId) : Prop :=
  (∃ position dependsOn, command = .plan (.addPlanTask planId id position dependsOn)) ∨
    ∃ taskIds, command = .plan (.bulkAttachToPlan planId taskIds) ∧ id ∈ taskIds

end Command

/-- An event writes what plans own only of some tasks, and makes only some members. -/
structure Event.Owns (touched joined : TaskId → Prop) (event : Event) : Prop where
  rewrites : ∀ id, event.rewrites id → touched id
  joins : ∀ id, event.joins id → joined id

section

variable {config : Config} {db : Database} {env : Env} {actor : Actor} {touched joined : TaskId → Prop}

theorem Event.Owns.of_nothing {event : Event} (h : event.landsNothing = true) : event.Owns touched joined := by
  refine ⟨fun id hRewrites => ?_, fun id hJoins => ?_⟩
  · cases event with
    | task event =>
      cases event with
      | taskCreated | taskSplitGenerated | taskDeleted => cases h
      | taskUpdated taskId patch => exact absurd (hRewrites.2.symm.trans h) Bool.false_ne_true
      | _ =>
        obtain ⟨_, hNew, _⟩ := hRewrites
        cases hNew
    | _ => exact absurd hRewrites not_false
  · cases event with
    | plan event =>
      cases event with
      | planTaskAdded => cases h
      | _ => exact absurd hJoins not_false
    | _ => exact absurd hJoins not_false

theorem LandsNothing.owns {events : List Event} (h : LandsNothing events) : Everywhere (Event.Owns touched joined) events :=
  fun event hMem => .of_nothing (h event hMem)

theorem buildEvents_owns {command : Command} (hPlanOnly : config.planOnlyIntake = true) (hTakesIn : command.takesIn = false) :
    Stateful.Yields (buildEvents config db env actor command)
      (Everywhere (Event.Owns (command.Amends db) fun id => ∃ planId, command.Attaches planId id)) := by
  have hNothing : ∀ {event : Event}, (∀ id, ¬event.rewrites id) → (∀ id, ¬event.joins id) →
      event.Owns (command.Amends db) fun id => ∃ planId, command.Attaches planId id :=
    fun hRewrites hJoins => ⟨fun id h => absurd h (hRewrites id), fun id h => absurd h (hJoins id)⟩
  have hQuiet : ∀ {event : PlanEvent}, (∀ id, ¬(Event.plan event).joins id) →
      (Event.plan event).Owns (command.Amends db) fun id => ∃ planId, command.Attaches planId id :=
    fun hJoins => hNothing (fun _ => not_false) hJoins
  cases hPlaces : command.places with
  | false => exact .mono (buildEvents_landsNothing hPlaces) fun _ h => h.owns
  | true =>
    cases command with
    | task command =>
      cases command with
      | createTask | splitTask => cases hTakesIn
      | updateTask id patch =>
        exact .lift (.mono (TaskCommands.updateTask_landsNothing hPlanOnly) fun _ h => h.owns)
      | deleteTask id =>
        refine .andThen fun _ => .andThen fun _ => .andThen fun _ =>
          .bind (.collect fun relation _ => TaskCommands.unlink_landsNothing relation) fun _ hUnlinked => .pure ?_
        refine .append (.append (LandsNothing.owns (.append hUnlinked (.map fun _ => rfl)))
          (.map fun _ => hQuiet fun _ => not_false)) (.cons (hNothing (fun _ h => ?_) fun _ => not_false) .nil)
        obtain ⟨_, hNew, _⟩ := h
        cases hNew
      | _ => cases hPlaces
    | plan command =>
      cases command with
      | materializePlan => cases hTakesIn
      | createPlan plan externalRef =>
        exact .lift (PlanCommands.createPlan_rule .nil fun _ _ => .cons (hQuiet fun _ => not_false) .nil)
      | amendPlanTask planId taskId patch =>
        refine .lift (.andThen fun _ _ => .andThen fun _ _ => .andThen fun _ _ => .andThen fun _ _ => .andThen
          fun _ _ => .andThen fun _ hMember => .pure (.cons (hQuiet fun _ => not_false) (.cons ⟨?_, fun _ h => h.elim⟩
            (.cons (hQuiet fun _ => not_false) .nil))))
        rintro id ⟨rfl, _⟩
        rw [ensure_eq_ok, any_eq_true] at hMember
        obtain ⟨member, hListed, hIs⟩ := hMember
        obtain ⟨hRow, hIn⟩ := List.mem_filter.mp ((List.perm_insertionSort _ _).mem_iff.mp hListed)
        exact ⟨planId, patch, rfl, member, hRow, of_decide_eq_true hIn, of_decide_eq_true hIs⟩
      | deletePlan id =>
        exact .lift (.andThen fun _ _ => .andThen fun _ _ => .pure (.cons (hQuiet fun _ => not_false)
          (PlanCommands.abortedRuns_landsNothing _ _).owns))
      | removePlanTask planId taskId =>
        refine .lift (.andThen fun _ _ => .pure (.cons (hQuiet fun _ => not_false) (LandsNothing.owns ?_)))
        split
        · exact .cons rfl (.cons rfl .nil)
        · exact .nil
      | addPlanTask planId taskId position dependsOn =>
        refine .lift (.map (.andThen fun _ _ => .andThen fun _ _ => .pure (.cons ⟨fun _ h => h.elim, ?_⟩
          (.cons (hQuiet fun _ => not_false) .nil))))
        rintro id rfl
        exact ⟨planId, .inl ⟨position, dependsOn, rfl⟩⟩
      | bulkAttachToPlan planId taskIds =>
        refine .lift (.map (.andThen fun _ _ => .andThen fun _ _ => .andThen fun _ _ =>
          .ite (fun _ => .pure .nil) fun _ => .pure ?_))
        rw [map_append]
        refine .append (forall_mem_map.mpr fun event hEvent => ⟨fun _ h => ?_, ?_⟩)
          (.cons (hQuiet fun _ => not_false) .nil)
        · obtain ⟨entry, _, rfl⟩ := mem_map.mp hEvent
          exact h.elim
        · obtain ⟨entry, hEntry, rfl⟩ := mem_map.mp hEvent
          obtain ⟨hUnique, _⟩ := mem_filter.mp (fst_mem_of_mem_zipIdx hEntry)
          rintro id rfl
          exact ⟨planId, .inr ⟨taskIds, rfl, TaskCommands.mem_of_mem_dedupeIds hUnique⟩⟩
      | _ => cases hPlaces
    | project command =>
      cases command with
      | createProject | updateProject =>
        refine .lift (.map (.andThen fun _ _ => ?_))
        first
          | exact .pure (.cons (hNothing (fun _ => not_false) fun _ => not_false) .nil)
          | exact .andThen fun _ _ => .pure (.cons (hNothing (fun _ => not_false) fun _ => not_false) .nil)
      | _ => cases hPlaces
    | _ => cases hPlaces

end

namespace Handler

variable {config : Config} {db : Database} {env : Env} {caller : Caller} {actor claimed : Actor} {command : Command}
  {batch : List Event} {relations : Relations} {trail : GateStage.Trail} {persisted : List EventEnvelope}
  {appended : Database}

/-- Whose fields a command writes: those of the tasks that it takes in or amends. -/
def Touches (db : Database) (env : Env) (command : Command) (id : TaskId) : Prop :=
  command.Brings db env id ∨ command.Amends db id

/-- Which members a command makes: those that it says, the tasks that it takes in, and
tasks that have a project. -/
def Joins (db : Database) (env : Env) (command : Command) (id : TaskId) : Prop :=
  (∃ planId, command.Attaches planId id) ∨ command.Brings db env id ∨
    ∃ task, db.tasks.find? id = some task ∧ task.projectId.isSome = true

variable {event : Event}

theorem Resolves.owns {sourced : Sourced} (h : Resolves config db env command sourced)
    (hOwns : event.Owns (sourced.command.Amends db) fun id => ∃ planId, sourced.command.Attaches planId id) :
    event.Owns (command.Amends db) fun id => ∃ planId, command.Attaches planId id := by
  rcases h.same with hSame | ⟨_, _, _, hIs⟩ | ⟨_, _, hIs⟩
  · rw [hSame] at hOwns
    exact hOwns
  · rw [hIs] at hOwns
    refine ⟨fun id hRewrites => ?_, fun id hJoins => ?_⟩
    · obtain ⟨_, _, hAmends, _⟩ := hOwns.rewrites id hRewrites
      cases hAmends
    · obtain ⟨_, ⟨_, _, hAttaches⟩ | ⟨_, hAttaches, _⟩⟩ := hOwns.joins id hJoins
      · cases hAttaches
      · cases hAttaches
  · rw [hIs] at hOwns
    refine ⟨fun id hRewrites => ?_, fun id hJoins => ?_⟩
    · obtain ⟨_, _, hAmends, _⟩ := hOwns.rewrites id hRewrites
      cases hAmends
    · obtain ⟨_, ⟨_, _, hAttaches⟩ | ⟨_, hAttaches, _⟩⟩ := hOwns.joins id hJoins
      · cases hAttaches
      · cases hAttaches

theorem unreconciled_owns (hPlanOnly : config.planOnlyIntake = true) (hTakesIn : command.takesIn = false) :
    Stateful.Yields (unreconciled config db env caller actor command)
      (Everywhere (Event.Owns (command.Amends db) fun id => ∃ planId, command.Attaches planId id)) := by
  refine .bind (.lift (@resolveSource_resolves config db _ (env.part 1) actor command)) fun sourced hResolves => ?_
  have hSourced : sourced.command.takesIn = false := by
    rcases hResolves.same with hSame | ⟨hTakes, _⟩ | ⟨_, _, hIs⟩
    · rw [hSame]
      exact hTakesIn
    · cases hTakesIn.symm.trans hTakes
    · rw [hIs]
      rfl
  refine .bind (buildEvents_owns hPlanOnly hSourced) fun built hBuilt => .pure (forall_mem_map.mpr fun event hMem => ?_)
  have hOwns : event.Owns (command.Amends db) fun id => ∃ planId, command.Attaches planId id := by
    unfold withSource at hMem
    split at hMem
    · rcases mem_append.mp hMem with hLink | hMem
      · exact .of_nothing (hResolves.linked event hLink)
      · exact hResolves.owns (hBuilt event hMem)
    · exact hResolves.owns (hBuilt event hMem)
  rcases authenticated_cases caller event with hSame | ⟨_, _, rfl, hSame⟩
  · rw [hSame]
    exact hOwns
  · rw [hSame]
    exact ⟨fun _ h => h.elim, fun _ h => h.elim⟩

theorem owns_of_sanctioned (hTakesIn : command.takesIn = true) (h : Sanctioned db env command event) :
    event.Owns (Touches db env command) (Joins db env command) := by
  have hCreates : ∀ {created : List NewTask} {id : TaskId}, (∀ new ∈ created, command.Creates db env new) →
      (∃ new ∈ created, new.id = some id) → command.Brings db env id := by
    rintro created id hAll ⟨new, hNew, hId⟩
    obtain ⟨intake, hIntake, hIsNew, hCreated⟩ := hAll new hNew
    exact ⟨intake, hIntake, hIsNew, Option.some.inj (hCreated.id.symm.trans hId)⟩
  refine ⟨fun id hRewrites => .inl ?_, fun id hJoins => .inr ?_⟩
  · cases event with
    | task event =>
      cases event with
      | taskCreated new => exact hCreates (forall_mem_singleton.mpr h) hRewrites
      | taskSplitGenerated parent subtasks => exact hCreates h hRewrites
      | taskUpdated taskId patch =>
        obtain ⟨rfl, _⟩ := hRewrites
        rcases h with ⟨_, hBrings⟩ | ⟨hPlain, _⟩
        · exact hBrings
        · cases hPlain.1.symm.trans hTakesIn
      | _ =>
        obtain ⟨_, hNew, _⟩ := hRewrites
        cases hNew
    | _ => exact hRewrites.elim
  · cases event with
    | plan event =>
      cases event with
      | planTaskAdded planId taskId =>
        obtain rfl : taskId = id := hJoins
        exact h.2 hTakesIn
      | _ => exact hJoins.elim
    | _ => exact hJoins.elim

theorem relinking_owns {f : Event → Event} (hRelinking : Relinking f) {touched joined : TaskId → Prop}
    (h : event.Owns touched joined) : (f event).Owns touched joined := by
  rcases hRelinking with rfl | ⟨origin, rfl⟩
  · exact h
  · unfold relinkEvent
    split
    · rename_i task
      refine ⟨fun id hRewrites => h.rewrites id ?_, fun id hJoins => hJoins.elim⟩
      obtain ⟨new, hNew, hId⟩ := hRewrites
      rw [mem_singleton.mp hNew] at hId
      exact ⟨task, mem_cons_self, hId⟩
    · exact h

theorem Accepted.owns (h : Accepted config env caller command claimed db batch relations trail persisted appended)
    (hPlanOnly : config.planOnlyIntake = true) : ∀ event ∈ persisted.map EventEnvelope.payload,
      event.Owns (Touches db (builderEnv env) command) (Joins db (builderEnv env) command) := by
  refine h.payload_rule (fun {f event} hRelinking hEvent => ?_) (fun _ => ⟨fun _ h => h.elim, fun _ h => h.elim⟩)
    fun _ _ _ => ⟨fun _ h => h.elim, fun _ h => h.elim⟩
  apply relinking_owns hRelinking
  cases hTakesIn : command.takesIn with
  | true => exact owns_of_sanctioned hTakesIn (h.sanctioned event hEvent)
  | false =>
    obtain ⟨warnings, hDraft⟩ := h.built
    obtain ⟨events, hEvents, hBatch⟩ := draft_unreconciled hDraft
    rw [hBatch] at hEvent
    rcases mem_append.mp hEvent with hEvent | hEvent
    · have hOwns := unreconciled_owns hPlanOnly hTakesIn _ _ _ hEvents event hEvent
      exact ⟨fun id hRewrites => .inr (hOwns.rewrites id hRewrites), fun id hJoins => .inl (hOwns.joins id hJoins)⟩
    · obtain ⟨closure, hClosure, rfl⟩ := mem_map.mp hEvent
      obtain ⟨planId, fromStatus, rfl⟩ := Reconciliation.drain_closes hClosure
      exact ⟨fun _ h => h.elim, fun _ h => h.elim⟩

end Handler

namespace Server

open Handler (builderEnv)

variable {config : Config} {db : Database} {call : Call}

variable {command : Command} {caller : Caller} {claimed : Actor} {env : Env}

theorem command_keepsOwned (hPlanOnly : config.planOnlyIntake = true) :
    KeepsOwned (Handler.Touches db (builderEnv env) command) (Handler.Joins db (builderEnv env) command) db
      (serve config db (.command env caller command claimed)) := by
  show KeepsOwned _ _ db (Handler.handleWithRunOwner config env caller command claimed db).2
  refine Handler.handle_rule (fun hAudited => ?_) (fun hAccepted hApplied => ?_)
    fun ⟨_, _, _, _, _, _, hLines, _⟩ hApplied => hApplied.trans (.of_same (hLines ▸ rfl))
  · obtain ⟨_, _, _, _, _, _, rfl⟩ := hAudited
    exact .of_same rfl
  · have hOwns := hAccepted.owns hPlanOnly
    have hKept := Projections.applyEvents_keepOwned hAccepted.namesCreated (fun event hMem => (hOwns event hMem).rewrites)
      (fun event hMem => (hOwns event hMem).joins) hApplied
    exact .trans (.of_same hAccepted.tasks_eq) hKept

theorem serve_keepsOwned {touched joined : TaskId → Prop} (hCall : Call.isCommand call = false) :
    KeepsOwned touched joined db (serve config db call) := by
  refine serve_rule hCall fun ⟨_, _, _, _, _, _, hFrame, _⟩ => ?_
  rw [hFrame]
  exact .of_same rfl

def OwnedBy (before : Database) (call : Call) (old row : Task) : Prop :=
  (row.title = old.title ∧ row.description = old.description ∧ row.projectId = old.projectId) ∨
  (∃ env caller command claimed, call = .command env caller command claimed ∧ command.Amends before old.id) ∨
  (row.title = old.title ∧ row.description = old.description ∧ old.projectId = none ∧
    ∃ env caller command claimed planId plan, call = .command env caller command claimed ∧
      command.Attaches planId old.id ∧ before.plans.find? planId = some plan ∧ row.projectId = some plan.projectId)

variable {old row : Task}

theorem attached_project {planId : PlanId} (hOld : old ∈ db.tasks) (hNone : old.projectId = none)
    (hRow : row ∈ (serve config db (.command env caller command claimed)).tasks) (hId : row.id = old.id)
    (hAttaches : command.Attaches planId old.id) :
    row.projectId = none ∨ ∃ plan, db.plans.find? planId = some plan ∧ row.projectId = some plan.projectId := by
  have hLandings : command.MintsPlan db (builderEnv env) ∧ ∃ taskIds,
      command.landings config db (builderEnv env) = Landings.joins db planId taskIds := by
    rcases hAttaches with ⟨_, _, rfl⟩ | ⟨_, rfl, _⟩
    · exact ⟨trivial, _, rfl⟩
    · exact ⟨trivial, _, rfl⟩
  obtain ⟨hMints, taskIds, hJoins⟩ := hLandings
  have hCover := @command_cover config db env caller command claimed hMints
  rcases hCover.tasks row hRow with ⟨task, hTask, hIs, hProject⟩ | hLanded
  · have hSame : task = old := eq_of_key_eq hTask hOld (hIs.trans hId)
    rw [← hProject, hSame]
    exact .inl hNone
  · rw [hJoins] at hLanded
    unfold Landings.joins at hLanded
    split at hLanded
    · cases hLanded
    · rename_i plan hPlan
      obtain ⟨_, _, hPair⟩ := mem_map.mp hLanded
      exact .inr ⟨plan, hPlan, (congrArg Prod.snd hPair).symm⟩

theorem serve_ownedBy (hPlanOnly : config.planOnlyIntake = true) (hKeeps : KeepsPlans db call)
    (hOld : old ∈ db.tasks) (hRow : row ∈ (serve config db call).tasks) (hId : row.id = old.id) :
    OwnedBy db call old row := by
  have hSame : ∀ {joined : TaskId → Prop} {stored : Task}, stored ∈ db.tasks → SameOwned joined stored row →
      SameOwned joined old row := by
    intro joined stored hStored hOwned
    have hIs : stored = old := eq_of_key_eq hStored hOld (hOwned.id.trans hId)
    exact hIs ▸ hOwned
  have hOthers : ∀ {other : Call}, Call.isCommand other = false →
      KeepsOwned (fun _ => False) (fun _ => False) db (serve config db other) := fun hOther => serve_keepsOwned hOther
  cases call with
  | command env caller command claimed =>
    have hNotBrought : ¬command.Brings db (builderEnv env) old.id := by
      rintro ⟨intake, hIntake, hNew, hIs⟩
      have hFound := hKeeps.new intake hIntake hNew
      rw [hIs, find?_of_mem hOld] at hFound
      cases hFound
    rcases command_keepsOwned hPlanOnly row hRow with hTouched | ⟨stored, hStored, hOwned⟩
    · rw [hId] at hTouched
      exact .inr (.inl ⟨env, caller, command, claimed, rfl, hTouched.resolve_left hNotBrought⟩)
    · have hOwned := hSame hStored hOwned
      rcases hOwned.project with hProject | ⟨hNone, hJoined⟩
      · exact .inl ⟨hOwned.title, hOwned.description, hProject⟩
      · rw [hId] at hJoined
        rcases hJoined with ⟨planId, hAttaches⟩ | hBrought | ⟨task, hTask, hSome⟩
        · rcases attached_project hOld hNone hRow hId hAttaches with hStill | ⟨plan, hPlan, hProject⟩
          · exact .inl ⟨hOwned.title, hOwned.description, hStill.trans hNone.symm⟩
          · exact .inr (.inr ⟨hOwned.title, hOwned.description, hNone, env, caller, command, claimed, planId, plan, rfl,
              hAttaches, hPlan, hProject⟩)
        · exact absurd hBrought hNotBrought
        · rw [find?_of_mem hOld] at hTask
          rw [← Option.some.inj hTask, hNone] at hSome
          cases hSome
  | _ =>
    rcases hOthers rfl row hRow with hTouched | ⟨stored, hStored, hOwned⟩
    · exact hTouched.elim
    · have hOwned := hSame hStored hOwned
      exact .inl ⟨hOwned.title, hOwned.description, hOwned.project.resolve_right fun h => h.2⟩

/-- Under plan-only intake, while tasks are created under new ids and a task that leaves
a plan is in another one, every task is in a plan in every state of a run, and what plans
own of a task changes by the amendment of a member, or by the project that the task
takes from the plan that it is attached to. -/
theorem intake_stays_planned (hPlanOnly : config.planOnlyIntake = true) (hKeys : TaskRepo.KeysDistinct db.tasks)
    (hPlanned : Planned db) {calls earlier later : List Call} (hMeets : Meets config KeepsPlans db calls)
    (hSplit : calls = earlier ++ call :: later) :
    Planned (earlier.foldl (serve config) db) ∧ Planned (serve config (earlier.foldl (serve config) db) call) ∧
      ∀ old ∈ (earlier.foldl (serve config) db).tasks,
        ∀ row ∈ (serve config (earlier.foldl (serve config) db) call).tasks, row.id = old.id →
          OwnedBy (earlier.foldl (serve config) db) call old row := by
  subst hSplit
  obtain ⟨hEarlier, hKeeps, _⟩ := hMeets.split
  have hSheltered : Sheltered (earlier.foldl (serve config) db) :=
    foldl_induction (fun db call hSheltered hKeeps => serve_sheltered hPlanOnly hKeeps hSheltered) ⟨hKeys, hPlanned⟩ hEarlier
  exact ⟨hSheltered.planned, (serve_sheltered hPlanOnly hKeeps hSheltered).planned,
    fun old hOld row hRow hId => serve_ownedBy hPlanOnly hKeeps hOld hRow hId⟩

private def intakeConfig : Config := { engineConfig with planOnlyIntake := true }

private def materialized : Call :=
  .command (nthEnv 0) .internal (.plan (.materializePlan (NewPlan.new "plan" ⟨0⟩ .anyUser)
    [{ NewTask.new "task" with id := some ⟨7⟩ }] none)) .anyUser

private def materializedPlan : PlanId := (builderEnv (nthEnv 0)).fresh 0

private def amendedPlan : Call :=
  .command (nthEnv 1) .internal (.plan (.amendPlanTask materializedPlan ⟨7⟩ { TaskPatch.none with title := some "title" })) .anyUser

theorem intake_stays_planned_amended :
    Planned (run intakeConfig [materialized]) ∧ Planned (serve intakeConfig (run intakeConfig [materialized]) amendedPlan) ∧
      ∀ old ∈ (run intakeConfig [materialized]).tasks,
        ∀ row ∈ (serve intakeConfig (run intakeConfig [materialized]) amendedPlan).tasks, row.id = old.id →
          OwnedBy (run intakeConfig [materialized]) amendedPlan old row := by
  have hFirst : KeepsPlans Database.empty materialized :=
    ⟨fun intake _ _ => rfl, nodup_singleton _, fun _ _ hIs => nomatch hIs⟩
  have hSecond : KeepsPlans (serve intakeConfig Database.empty materialized) amendedPlan :=
    ⟨fun intake hIntake => absurd hIntake not_mem_nil, nodup_nil, fun _ _ hIs => nomatch hIs⟩
  have hRun : run intakeConfig [materialized] = [materialized].foldl (serve intakeConfig) Database.empty := rfl
  rw [hRun]
  exact @intake_stays_planned intakeConfig Database.empty amendedPlan rfl TaskRepo.KeysDistinct.empty
    (fun task hTask => absurd hTask (not_mem_empty task)) [materialized, amendedPlan] [materialized] []
    ⟨hFirst, hSecond, trivial⟩ rfl

/-- A task without a project in a plan of a project, as tasks from before there were
plans are. -/
private def legacy : Database :=
  { run intakeConfig [materialized] with
    tasks := (run intakeConfig [materialized]).tasks.modify ⟨7⟩ fun task => { task with projectId := none } }

/-- The only plan of a task is left, and a task takes the project of a plan. -/
theorem intake_contract_fails : Planned legacy ∧ ¬Planned (serve intakeConfig legacy
      (.command (nthEnv 1) .internal (.plan (.removePlanTask materializedPlan ⟨7⟩)) .anyUser)) ∧
    ∃ old ∈ legacy.tasks, ∃ row ∈ (serve intakeConfig legacy
      (.command (nthEnv 1) .internal (.plan (.addPlanTask materializedPlan ⟨7⟩ none none)) .anyUser)).tasks,
      row.id = old.id ∧ row.projectId ≠ old.projectId := by
  refine ⟨?_, ?_, ?_⟩
  · show ∀ task ∈ legacy.tasks.rows, ∃ member ∈ legacy.planTasks.rows, member.taskId = task.id
    decide +kernel
  · intro hPlanned
    have hRows : ∀ task ∈ (serve intakeConfig legacy (.command (nthEnv 1) .internal
        (.plan (.removePlanTask materializedPlan ⟨7⟩)) .anyUser)).tasks.rows, ∃ member ∈ (serve intakeConfig legacy
        (.command (nthEnv 1) .internal (.plan (.removePlanTask materializedPlan ⟨7⟩)) .anyUser)).planTasks.rows,
        member.taskId = task.id := hPlanned
    exact absurd hRows (by decide +kernel)
  · show ∃ old ∈ legacy.tasks.rows, ∃ row ∈ (serve intakeConfig legacy (.command (nthEnv 1) .internal
      (.plan (.addPlanTask materializedPlan ⟨7⟩ none none)) .anyUser)).tasks.rows,
      row.id = old.id ∧ row.projectId ≠ old.projectId
    decide +kernel

end Server
end Daruma
