import Daruma.Core.BatchLifecycles

/-! The tasks that there may be and the members that plans have, along a batch: when
every task is in a plan after it, wherever the batch stops. -/
namespace Daruma

open List KeyedTable Stateful

def Planned (db : Database) : Prop := ∀ task ∈ db.tasks, ∃ member ∈ db.planTasks, member.taskId = task.id

/-- The tasks that there may be, the members that plans have, and the keys that
stored tasks have. -/
structure Shelter where
  task : TaskId → Prop
  member : PlanId → TaskId → Prop
  stored : TaskId → Option String → Prop

namespace Shelter

/-- There are no other tasks, and all these members and keys. -/
structure Shows (shelter : Shelter) (db : Database) : Prop where
  tasks : ∀ task ∈ db.tasks, shelter.task task.id
  members : ∀ planId taskId, shelter.member planId taskId →
    ∃ member ∈ db.planTasks, member.planId = planId ∧ member.taskId = taskId
  stored : ∀ id key, shelter.stored id key → ∃ task ∈ db.tasks, task.id = id ∧ task.externalKey = key

def Whole (shelter : Shelter) : Prop := ∀ id, shelter.task id → ∃ planId, shelter.member planId id

variable {shelter : Shelter} {db : Database}

theorem Shows.planned (h : shelter.Shows db) (hWhole : shelter.Whole) : Planned db := by
  intro task hTask
  obtain ⟨planId, hMember⟩ := hWhole task.id (h.tasks task hTask)
  obtain ⟨member, hRow, _, hIs⟩ := h.members planId task.id hMember
  exact ⟨member, hRow, hIs⟩

def of (db : Database) : Shelter where
  task id := ∃ task ∈ db.tasks, task.id = id
  member planId taskId := ∃ member ∈ db.planTasks, member.planId = planId ∧ member.taskId = taskId
  stored id key := ∃ task ∈ db.tasks, task.id = id ∧ task.externalKey = key

theorem of_shows (db : Database) : (of db).Shows db :=
  ⟨fun task hTask => ⟨task, hTask, rfl⟩, fun _ _ h => h, fun _ _ h => h⟩

theorem of_whole (h : Planned db) : (of db).Whole := by
  rintro id ⟨task, hTask, rfl⟩
  obtain ⟨member, hMember, hIs⟩ := h task hTask
  exact ⟨member.planId, member, hMember, rfl, hIs⟩

theorem Shows.congr {db' : Database} (h : shelter.Shows db) (hTasks : db'.tasks = db.tasks)
    (hMembers : db'.planTasks = db.planTasks) : shelter.Shows db' := by
  refine ⟨?_, ?_, ?_⟩
  · rw [hTasks]
    exact h.tasks
  · rw [hMembers]
    exact h.members
  · rw [hTasks]
    exact h.stored

end Shelter

/-- The keys of stored tasks once some are inserted. One that is inserted twice has the
last of its keys. -/
def storedWith (created : List NewTask) (stored : TaskId → Option String → Prop) (id : TaskId) (key : Option String) : Prop :=
  (∃ new ∈ created, new.id = some id) ∧ (∀ new ∈ created, new.id = some id → new.externalKey = key) ∨
    (∀ new ∈ created, new.id ≠ some id) ∧ stored id key

/-- What an event makes of the tasks that there may be, of the members and of the keys. -/
def Event.shelters (before : Shelter) : Event → Shelter
  | .task (.taskDeleted taskId) => { before with
      task := fun id => id ≠ taskId ∧ before.task id
      stored := fun id key => id ≠ taskId ∧ before.stored id key }
  | .task event => { before with
      task := fun id => before.task id ∨ ∃ new ∈ event.created, new.id = some id
      stored := storedWith event.created before.stored }
  | .plan (.planTaskAdded planId taskId ..) =>
    { before with member := fun plan id => before.member plan id ∨ plan = planId ∧ id = taskId }
  | .plan (.planTaskRemoved planId taskId) =>
    { before with member := fun plan id => before.member plan id ∧ ¬(plan = planId ∧ id = taskId) }
  | .plan (.planDeleted planId _) => { before with member := fun plan id => before.member plan id ∧ plan ≠ planId }
  | _ => before

section

variable {before : Shelter} {event : Event} {created : List NewTask} {stored : TaskId → Option String → Prop}

theorem storedWith_nil : storedWith [] stored = stored := by
  funext id key
  simp [storedWith]

theorem storedWith_twice : storedWith created (storedWith created stored) = storedWith created stored := by
  funext id key
  by_cases hIn : ∃ new ∈ created, new.id = some id
  · have hNot : ¬∀ new ∈ created, new.id ≠ some id := by
      obtain ⟨new, hNew, hId⟩ := hIn
      exact fun hNone => hNone new hNew hId
    simp only [storedWith, hIn, hNot, true_and, false_and, or_false]
  · simp [storedWith, hIn]

theorem Event.shelters_created {event : TaskEvent} (h : ∀ taskId, event ≠ .taskDeleted taskId) :
    Event.shelters before (.task event) = { before with
      task := fun id => before.task id ∨ ∃ new ∈ event.created, new.id = some id
      stored := storedWith event.created before.stored } := by
  cases event with
  | taskDeleted taskId => exact absurd rfl (h taskId)
  | _ => rfl

theorem Event.shelters_taskCreated {new : NewTask} : Event.shelters before (.task (.taskCreated new)) = { before with
    task := fun id => before.task id ∨ ∃ created ∈ [new], created.id = some id
    stored := storedWith [new] before.stored } := rfl

theorem Event.shelters_task {event : TaskEvent} (hCreated : event.created = [])
    (hDeleted : ∀ taskId, event ≠ .taskDeleted taskId) : Event.shelters before (.task event) = before := by
  rw [Event.shelters_created hDeleted, hCreated, storedWith_nil]
  simp

theorem Event.shelters_twice (event : Event) (before : Shelter) :
    Event.shelters (Event.shelters before event) event = Event.shelters before event := by
  cases event with
  | task event =>
    by_cases hDeleted : ∃ taskId, event = .taskDeleted taskId
    · obtain ⟨taskId, rfl⟩ := hDeleted
      simp [Event.shelters]
    · have hNot : ∀ taskId, event ≠ .taskDeleted taskId := fun taskId hIs => hDeleted ⟨taskId, hIs⟩
      rw [Event.shelters_created hNot, Event.shelters_created hNot]
      simp [or_assoc, storedWith_twice]
  | plan event =>
    cases event with
    | planTaskAdded | planTaskRemoved | planDeleted => simp [Event.shelters, or_assoc, and_assoc]
    | _ => rfl
  | _ => rfl

end

namespace TaskRepo

variable {tasks tasks' : Tasks} {env : Env} {envelope : EventEnvelope} {event : TaskEvent} {shelter : Shelter}

abbrev StoredIn (tasks : Tasks) (id : TaskId) (key : Option String) : Prop :=
  ∃ task ∈ tasks, task.id = id ∧ task.externalKey = key

variable {id taskId : TaskId} {key : Option String} {f : Task → Task}

theorem storedIn_upsert {task : Task} (h : upsertTask tasks task = .ok tasks')
    (hStored : task.id = id ∧ task.externalKey = key ∨ task.id ≠ id ∧ StoredIn tasks id key) : StoredIn tasks' id key := by
  have hFound := find?_upsertTask h id
  rcases hStored with ⟨hId, hKey⟩ | ⟨hOther, row, hRow, rfl, hKey⟩
  · rw [if_pos hId] at hFound
    exact ⟨_, mem_of_find? hFound, hId, hKey⟩
  · rw [if_neg hOther, find?_of_mem hRow] at hFound
    exact ⟨row, mem_of_find? hFound, rfl, hKey⟩

theorem storedIn_update (h : updateTask tasks taskId f = .ok tasks') (hId : ∀ task, (f task).id = task.id)
    (hKey : ∀ task, (f task).externalKey = task.externalKey) (hStored : StoredIn tasks id key) : StoredIn tasks' id key := by
  unfold updateTask at h
  split at h
  · cases h
    exact hStored
  · rename_i old hFound
    apply storedIn_upsert h
    by_cases hSame : (f old).id = id
    · obtain ⟨row, hRow, rfl, rfl⟩ := hStored
      have hRowFound := find?_of_mem hRow
      rw [← hSame, hId, key_of_find? hFound, hFound] at hRowFound
      obtain rfl : old = row := Option.some.inj hRowFound
      exact .inl ⟨hSame, hKey old⟩
    · exact .inr ⟨hSame, hStored⟩

theorem storedIn_modify (hId : ∀ task, (f task).id = task.id)
    (hKey : ∀ task, (f task).externalKey = task.externalKey) (h : StoredIn tasks id key) :
    StoredIn (tasks.modify taskId f) id key := by
  obtain ⟨row, hRow, rfl, rfl⟩ := h
  by_cases hSame : row.id = taskId
  · exact ⟨f row, (mem_modify hId).mpr (.inl ⟨row, hRow, hSame, rfl⟩), hId row, hKey row⟩
  · exact ⟨row, (mem_modify hId).mpr (.inr ⟨hRow, hSame⟩), rfl, rfl⟩

theorem storedIn_subtasks {subtasks : List NewTask} {stored : TaskId → Option String → Prop} {n : Nat} (h : insertSubtasks env envelope tasks n subtasks = .ok tasks')
    (hNames : ∀ new ∈ subtasks, new.id.isSome = true) (hStored : ∀ id key, stored id key → StoredIn tasks id key)
    (hWith : storedWith subtasks stored id key) : StoredIn tasks' id key := by
  induction subtasks generalizing tasks stored n with
  | nil =>
    cases h
    rw [storedWith_nil] at hWith
    exact hStored id key hWith
  | cons new rest ih =>
    obtain ⟨hNamed, hRestNamed⟩ := forall_mem_cons.mp hNames
    obtain ⟨newId, hNewId⟩ := Option.isSome_iff_exists.mp hNamed
    unfold insertSubtasks at h
    split at h
    · cases h
    · rename_i middle hMiddle
      refine @ih middle (StoredIn middle) (n + 1) h hRestNamed (fun _ _ h => h) ?_
      have hRow : ∀ id key, newId = id ∧ new.externalKey = key ∨ newId ≠ id ∧ StoredIn tasks id key →
          StoredIn middle id key := by
        intro id key hEither
        refine storedIn_upsert hMiddle ?_
        show new.id.getD (env.fresh n) = id ∧ _ ∨ new.id.getD (env.fresh n) ≠ id ∧ _
        rw [hNewId]
        exact hEither
      by_cases hLater : ∃ later ∈ rest, later.id = some id
      · rcases hWith with ⟨_, hAll⟩ | ⟨hNone, _⟩
        · exact .inl ⟨hLater, fun later hMem => hAll later (mem_cons_of_mem _ hMem)⟩
        · obtain ⟨later, hMem, hId⟩ := hLater
          exact absurd hId (hNone later (mem_cons_of_mem _ hMem))
      · refine .inr ⟨fun later hMem hId => hLater ⟨later, hMem, hId⟩, hRow id key ?_⟩
        rcases hWith with ⟨⟨first, hFirst, hId⟩, hAll⟩ | ⟨hNone, hBefore⟩
        · rcases mem_cons.mp hFirst with rfl | hMem
          · exact .inl ⟨Option.some.inj (hNewId.symm.trans hId), hAll first mem_cons_self hId⟩
          · exact absurd ⟨first, hMem, hId⟩ hLater
        · exact .inr ⟨fun hSame => hNone new mem_cons_self (hSame ▸ hNewId), hStored id key hBefore⟩

theorem applyTaskEvent_stored (h : applyTaskEvent tasks env envelope event = .ok tasks')
    (hNames : (Event.task event).NamesCreated) (hStored : ∀ id key, shelter.stored id key → StoredIn tasks id key)
    (hAfter : (Event.shelters shelter (.task event)).stored id key) : StoredIn tasks' id key := by
  have hRewritten : ∀ {taskId : TaskId} {f : Task → Task} {written : Tasks}, updateTask tasks taskId f = .ok written →
      (∀ task, (f task).id = task.id) → (∀ task, (f task).externalKey = task.externalKey) →
      storedWith [] shelter.stored id key → StoredIn written id key := by
    intro taskId f written hUpdated hId hKey hWith
    rw [storedWith_nil] at hWith
    exact storedIn_update hUpdated hId hKey (hStored id key hWith)
  cases event with
  | taskCreated new =>
    obtain ⟨newId, hNewId⟩ := Option.isSome_iff_exists.mp (hNames new (mem_singleton_self new))
    have hIs : (newTaskRow envelope new.sourceEventId (env.fresh 0) new).id = newId := by
      show new.id.getD (env.fresh 0) = newId
      rw [hNewId]
      rfl
    refine storedIn_upsert h ?_
    rw [hIs]
    rcases hAfter with ⟨⟨other, hOther, hId⟩, hAll⟩ | ⟨hNone, hBefore⟩
    · obtain rfl : other = new := mem_singleton.mp hOther
      exact .inl ⟨Option.some.inj (hNewId.symm.trans hId), hAll other mem_cons_self hId⟩
    · exact .inr ⟨fun hSame => hNone new mem_cons_self (hSame ▸ hNewId), hStored id key hBefore⟩
  | taskSplitGenerated parent subtasks => exact storedIn_subtasks h hNames hStored hAfter
  | taskDeleted taskId =>
    cases h
    obtain ⟨row, hRow, rfl, hKey⟩ := hStored id key hAfter.2
    exact ⟨row, mem_erase.mpr ⟨hRow, hAfter.1⟩, rfl, hKey⟩
  | taskUpdated taskId patch =>
    unfold applyTaskEvent at h
    dsimp only at h
    split at h
    · cases h
    rename_i patched hPatched
    have hPatchedStored : StoredIn patched id key := hRewritten hPatched (fun _ => rfl) (fun _ => rfl) hAfter
    split at h
    · cases h
      exact hPatchedStored
    · cases h
      exact storedIn_modify (fun _ => rfl) (fun _ => rfl) hPatchedStored
  | taskUnblocked | taskDueElapsed | taskContested =>
    cases h
    have hBefore : storedWith [] shelter.stored id key := hAfter
    rw [storedWith_nil] at hBefore
    exact hStored id key hBefore
  | _ => exact hRewritten h (fun _ => rfl) (fun _ => rfl) hAfter

theorem applyTaskEvent_shelters (h : applyTaskEvent tasks env envelope event = .ok tasks')
    (hNames : (Event.task event).NamesCreated) (hTasks : ∀ task ∈ tasks, shelter.task task.id) :
    ∀ task ∈ tasks', (Event.shelters shelter (.task event)).task task.id := by
  intro row hRow
  by_cases hDeleted : ∃ taskId, event = .taskDeleted taskId
  · obtain ⟨taskId, rfl⟩ := hDeleted
    cases h
    obtain ⟨hStored, hOther⟩ := mem_erase.mp hRow
    exact ⟨hOther, hTasks row hStored⟩
  · rw [Event.shelters_created fun taskId hIs => hDeleted ⟨taskId, hIs⟩]
    cases applyTaskEvent_row h (find?_of_mem hRow) with
    | @rewritten old hFound _ _ =>
      have hOld := hTasks old (mem_of_find? hFound)
      rw [key_of_find? hFound] at hOld
      exact .inl hOld
    | @inserted new hNew hInserted =>
      refine .inr ⟨new, hNew, hInserted.id.resolve_left fun hNone => ?_⟩
      have hNamed := hNames new hNew
      rw [hNone] at hNamed
      cases hNamed

end TaskRepo

namespace PlanRepo

variable {db : Database} {env : Env} {envelope : EventEnvelope} {shelter : Shelter}

abbrev Joined (db : Database) (planId : PlanId) (taskId : TaskId) : Prop :=
  ∃ member ∈ db.planTasks, member.planId = planId ∧ member.taskId = taskId

variable {planId plan : PlanId} {id : TaskId} {position : Nat}

theorem joined_addTask {taskId : TaskId} {dependsOn : List TaskId}
    (h : Joined db plan id ∨ plan = planId ∧ id = taskId) : Joined (addTask db planId taskId position dependsOn) plan id := by
  have hWritten : ∃ member ∈ db.planTasks.insertOrReplace ⟨planId, taskId, position, dependsOn⟩,
      member.planId = plan ∧ member.taskId = id := by
    rcases h with ⟨member, hMember, rfl, rfl⟩ | ⟨rfl, rfl⟩
    · by_cases hSame : (member.planId, member.taskId) = (planId, taskId)
      · obtain ⟨hPlan, hTask⟩ := Prod.mk.inj hSame
        exact ⟨_, mem_insertOrReplace.mpr (.inl rfl), hPlan.symm, hTask.symm⟩
      · exact ⟨member, mem_insertOrReplace.mpr (.inr ⟨hMember, hSame⟩), rfl, rfl⟩
    · exact ⟨_, mem_insertOrReplace.mpr (.inl rfl), rfl, rfl⟩
  unfold addTask
  dsimp only
  split
  · exact hWritten
  · exact hWritten

theorem joined_reorder {order : List TaskId} (h : Joined db plan id) :
    Joined (reorder db planId position order) plan id := by
  induction order generalizing db position with
  | nil => exact h
  | cons taskId rest ih =>
    obtain ⟨member, hMember, hPlan, hTask⟩ := h
    have hKey : ∀ member : PlanTask, PlanTask.key { member with position := position } = member.key := fun _ => rfl
    apply ih
    by_cases hSame : member.key = (planId, taskId)
    · exact ⟨_, (mem_modify hKey).mpr (.inl ⟨member, hMember, hSame, rfl⟩), hPlan, hTask⟩
    · exact ⟨member, (mem_modify hKey).mpr (.inr ⟨hMember, hSame⟩), hPlan, hTask⟩

theorem joined_deletePlan {instant : Timestamp} (h : Joined db plan id)
    (hOther : plan ≠ planId) : Joined (deletePlan db planId instant) plan id := by
  obtain ⟨member, hMember, rfl, rfl⟩ := h
  have hKept : member ∈ db.planTasks.filter fun member => member.planId ≠ planId :=
    KeyedTable.mem_filter.mpr ⟨hMember, decide_eq_true hOther⟩
  unfold deletePlan
  dsimp only
  split
  · exact ⟨member, hKept, rfl, rfl⟩
  · exact ⟨member, hKept, rfl, rfl⟩

theorem joined_applyPatch {patch : PlanPatch} (h : Joined db plan id) :
    Joined (applyPatch db env envelope planId patch) plan id := by
  unfold applyPatch
  split
  · exact h
  · dsimp only
    split
    · split
      · exact h
      · exact h
    · exact h

theorem applyPlanEvent_members {event : PlanEvent}
    (hMembers : ∀ planId taskId, shelter.member planId taskId → Joined db planId taskId)
    (h : (Event.shelters shelter (.plan event)).member plan id) : Joined (applyPlanEvent db env envelope event) plan id := by
  cases event with
  | planTaskAdded => exact joined_addTask (h.imp_left (hMembers plan id))
  | planTaskRemoved planId taskId =>
    obtain ⟨hMember, hOther⟩ := h
    obtain ⟨member, hRow, rfl, rfl⟩ := hMembers plan id hMember
    refine ⟨member, mem_erase.mpr ⟨hRow, fun hSame => hOther ?_⟩, rfl, rfl⟩
    exact Prod.mk.inj hSame
  | planReordered => exact joined_reorder (hMembers plan id h)
  | planDeleted => exact joined_deletePlan (hMembers plan id h.1) h.2
  | planUpdated => exact joined_applyPatch (hMembers plan id h)
  | sourceUpserted source =>
    have hMember := hMembers plan id h
    show Joined (upsertSource db source) plan id
    unfold upsertSource
    split
    · exact hMember
    · exact hMember
  | _ => exact hMembers plan id h

end PlanRepo

namespace Projections

variable {env : Env} {envelope : EventEnvelope} {envelopes : List EventEnvelope} {db db' : Database} {shelter : Shelter}
  {outcome : Except CoreError Unit}

theorem tasks_shelters (hNames : envelope.payload.NamesCreated) {event : TaskEvent} (hPayload : envelope.payload = .task event)
    (h : tasks env envelope db = .ok db') (hShows : shelter.Shows db) :
    (Event.shelters shelter envelope.payload).Shows db' := by
  obtain ⟨written, hWritten, rfl⟩ := tasks_ok h
  unfold TaskRepo.applyEvent at hWritten
  rw [hPayload] at hWritten hNames ⊢
  refine ⟨TaskRepo.applyTaskEvent_shelters hWritten hNames hShows.tasks, ?_,
    fun id key => TaskRepo.applyTaskEvent_stored hWritten hNames hShows.stored⟩
  cases event <;> exact hShows.members

theorem plans_shelters {event : PlanEvent} (hPayload : envelope.payload = .plan event) (hShows : shelter.Shows db) :
    (Event.shelters shelter envelope.payload).Shows (PlanRepo.applyEvent db env envelope) := by
  refine ⟨fun row hRow => ?_, ?_, fun id key hStored => ?_⟩
  · obtain ⟨old, projectId, hOld, rfl⟩ := PlanRepo.applyEvent_taskRow (find?_of_mem hRow)
    have hTask : shelter.task old.id := hShows.tasks old (mem_of_find? hOld)
    rw [hPayload]
    cases event <;> exact hTask
  · unfold PlanRepo.applyEvent
    rw [hPayload]
    exact fun plan id hMember => PlanRepo.applyPlanEvent_members hShows.members hMember
  · have hBefore : shelter.stored id key := by
      rw [hPayload] at hStored
      cases event <;> exact hStored
    have hStays := hShows.stored id key hBefore
    exact PlanRepo.applyEvent_tasks_rule (P := fun tasks => TaskRepo.StoredIn tasks id key) hStays fun _ _ _ _ _ _ =>
      TaskRepo.storedIn_modify (fun _ => rfl) (fun _ => rfl) hStays

/-- The event was taken in, or tasks and members are as they were. -/
def TakesIn (event : Event) (before after : Database) : Prop :=
  ∀ shelter : Shelter, shelter.Shows before → shelter.Shows after ∨ (Event.shelters shelter event).Shows after

theorem TakesIn.of_same {event : Event} {before after : Database} (hTasks : after.tasks = before.tasks)
    (hMembers : after.planTasks = before.planTasks) : TakesIn event before after :=
  fun _ hShows => .inl (hShows.congr hTasks hMembers)

variable {step : Database → Result Database}

theorem projectors_takeIn (hNames : envelope.payload.NamesCreated)
    (hStep : step ∈ projectors env envelope) (h : step db = .ok db') : TakesIn envelope.payload db db' := by
  obtain ⟨_, hWrote⟩ := exists_wrote hStep h
  cases hWrote with
  | @tasks written hWritten =>
    cases hPayload : envelope.payload with
    | task event =>
      have hTaken : tasks env envelope db = .ok { db with tasks := written } := by
        unfold tasks
        rw [hWritten]
        rfl
      exact fun shelter hShows => .inr (hPayload ▸ tasks_shelters hNames hPayload hTaken hShows)
    | _ =>
      unfold TaskRepo.applyEvent at hWritten
      rw [hPayload] at hWritten
      cases hWritten
      exact .of_same rfl rfl
  | plans hApplied =>
    rw [← hApplied]
    cases hPayload : envelope.payload with
    | plan event => exact fun shelter hShows => .inr (hPayload ▸ plans_shelters hPayload hShows)
    | _ =>
      unfold PlanRepo.applyEvent
      rw [hPayload]
      exact .of_same rfl rfl
  | _ => exact .of_same rfl rfl

theorem exists_sheltering (hNames : envelope.payload.NamesCreated) : ∃ step ∈ projectors env envelope,
    ∀ db db', step db = .ok db' → ∀ shelter, Shelter.Shows shelter db →
      (Event.shelters shelter envelope.payload).Shows db' := by
  have hIdle : (∀ shelter, Event.shelters shelter envelope.payload = shelter) → ∃ step ∈ projectors env envelope,
      ∀ db db', step db = .ok db' → ∀ shelter, Shelter.Shows shelter db →
        (Event.shelters shelter envelope.payload).Shows db' := by
    intro hSame
    refine ⟨_, mem_cons_of_mem _ mem_cons_self, fun db db' hTaken shelter hShows => ?_⟩
    cases hTaken
    rw [hSame]
    exact hShows.congr rfl rfl
  cases hPayload : envelope.payload with
  | task event =>
    exact ⟨_, mem_cons_self, fun db db' hTaken shelter hShows =>
      hPayload ▸ tasks_shelters hNames hPayload hTaken hShows⟩
  | plan event =>
    refine ⟨_, mem_cons_of_mem _ (mem_cons_of_mem _ mem_cons_self), fun db db' hTaken shelter hShows => ?_⟩
    cases hTaken
    exact hPayload ▸ plans_shelters hPayload hShows
  | _ =>
    rw [hPayload] at hIdle
    exact hIdle fun _ => rfl

theorem applyEvent_shelters (hNames : envelope.payload.NamesCreated)
    (h : Stateful.inTurn (projectors env envelope) db = (outcome, db')) (hShows : shelter.Shows db) :
    (outcome ≠ .ok () ∧ shelter.Shows db') ∨ (Event.shelters shelter envelope.payload).Shows db' := by
  have hOnce : ∀ before, Event.shelters (Event.shelters before envelope.payload) envelope.payload =
      Event.shelters before envelope.payload := Event.shelters_twice envelope.payload
  have hSteps : ∀ step ∈ projectors env envelope, ∀ db db', step db = .ok db' → ∀ before, Shelter.Shows before db →
      Shelter.Shows before db' ∨ (Event.shelters before envelope.payload).Shows db' :=
    fun step hStep db db' hTaken => projectors_takeIn hNames hStep hTaken
  exact inTurn_shows hOnce hSteps (exists_sheltering hNames) h hShows

end Projections

def Event.StandsIn (shelter : Shelter) : Event → Prop
  | .task (.taskCreated new) => ∃ id, new.id = some id ∧ shelter.stored id new.externalKey
  | _ => False

/-- Where a projection may refuse an event every task is in a plan, and so it is
after the last. -/
def SafeFrom : Shelter → List Event → Prop
  | shelter, [] => shelter.Whole
  | shelter, event :: rest => (event.Steady ∨ event.StandsIn shelter ∨ shelter.Whole) ∧ SafeFrom (Event.shelters shelter event) rest

namespace Projections

variable {env : Env} {envelope : EventEnvelope} {envelopes : List EventEnvelope} {db db' : Database} {shelter : Shelter}
  {outcome : Except CoreError Unit}

theorem otherProjectors_ok {event : TaskEvent} (hPayload : envelope.payload = .task event)
    (hStep : step ∈ (projectors env envelope).tail) (db : Database) : ∃ db', step db = .ok db' := by
  simp only [projectors, tail_cons, mem_cons, not_mem_nil, or_false] at hStep
  rcases hStep with rfl | rfl | rfl | rfl | rfl | rfl | rfl | rfl | rfl | rfl | rfl | rfl
  · exact ⟨_, rfl⟩
  · exact ⟨_, rfl⟩
  · exact ⟨_, rfl⟩
  · unfold RunNoteRepo.applyEvent
    rw [hPayload]
    exact ⟨_, rfl⟩
  · exact ⟨_, rfl⟩
  · unfold AgentClaimRepo.applyEvent
    rw [hPayload]
    exact ⟨_, rfl⟩
  · exact ⟨_, rfl⟩
  · exact ⟨_, rfl⟩
  · unfold handoffs HandoffRepo.applyEvent
    rw [hPayload]
    exact ⟨_, rfl⟩
  · unfold rules RuleRepo.applyEvent
    rw [hPayload]
    exact ⟨_, rfl⟩
  · exact ⟨_, rfl⟩
  · unfold ArtifactRepo.applyEvent
    rw [hPayload]
    exact ⟨_, rfl⟩

theorem tasks_ok_of_standsIn (hKeys : TaskRepo.KeysDistinct db.tasks) (hShows : shelter.Shows db)
    (hStands : envelope.payload.StandsIn shelter) : ∃ db', tasks env envelope db = .ok db' := by
  unfold Event.StandsIn at hStands
  split at hStands
  · rename_i new hPayload
    obtain ⟨id, hId, hStored⟩ := hStands
    obtain ⟨row, hRow, hRowId, hRowKey⟩ := hShows.stored id new.externalKey hStored
    have hFree : TaskRepo.keyTaken db.tasks (TaskRepo.newTaskRow envelope new.sourceEventId (env.fresh 0) new) = false := by
      refine TaskRepo.keyTaken_eq_false.mpr fun hSome other hOther hKey => ?_
      have hSameKey : row.externalKey = other.externalKey := hRowKey.trans hKey.symm
      have hSame : row.id = other.id := hKeys row hRow other hOther (hRowKey.symm ▸ hSome) hSameKey
      show other.id = new.id.getD (env.fresh 0)
      rw [hId, ← hSame]
      exact hRowId
    unfold tasks TaskRepo.applyEvent
    rw [hPayload]
    unfold TaskRepo.applyTaskEvent TaskRepo.upsertTask
    dsimp only
    rw [hFree]
    exact ⟨_, rfl⟩
  · exact absurd hStands not_false

theorem refused_cases {e : CoreError} (hNames : envelope.payload.NamesCreated) (hKeys : TaskRepo.KeysDistinct db.tasks)
    (h : Stateful.inTurn (projectors env envelope) db = (.error e, db')) (hShows : shelter.Shows db) :
    ¬envelope.payload.Steady ∧ ¬envelope.payload.StandsIn shelter ∧ shelter.Shows db' := by
  have hNotSteady : ¬envelope.payload.Steady := by
    intro hSteady
    have hTotal : ∃ last, Stateful.inTurn (projectors env envelope) db = (.ok (), last) ∧
        TaskRepo.KeysDistinct last.tasks := by
      refine inTurn_total (fun step hStep db hKeys => ?_) hKeys
      obtain ⟨after, hTaken⟩ := projectors_ok hSteady hKeys hStep
      exact ⟨after, hTaken, projectors_keepKeys hStep hTaken hKeys⟩
    obtain ⟨last, hRun, _⟩ := hTotal
    cases hRun.symm.trans h
  refine ⟨hNotSteady, ?_⟩
  cases hPayload : envelope.payload with
  | task event =>
    rcases inTurn_cons h with ⟨_, hRefused, _, rfl⟩ | ⟨middle, _, hRest⟩
    · refine ⟨fun hStands => ?_, hShows⟩
      obtain ⟨after, hTaken⟩ := @tasks_ok_of_standsIn env envelope db' shelter hKeys hShows (hPayload ▸ hStands)
      cases hTaken.symm.trans hRefused
    · have hTotal : ∃ last, Stateful.inTurn (projectors env envelope).tail middle = (.ok (), last) ∧ True := by
        refine inTurn_total (fun step hStep db _ => ?_) trivial
        obtain ⟨after, hTaken⟩ := otherProjectors_ok hPayload hStep db
        exact ⟨after, hTaken, trivial⟩
      obtain ⟨last, hRun, _⟩ := hTotal
      cases hRun.symm.trans hRest
  | plan event => exact absurd (hPayload ▸ trivial) hNotSteady
  | _ =>
    refine ⟨not_false, ?_⟩
    rcases applyEvent_shelters hNames h hShows with ⟨_, hKept⟩ | hTaken
    · exact hKept
    · rw [hPayload] at hTaken
      exact hTaken

theorem applyEvents_planned (hNames : ∀ envelope ∈ envelopes, envelope.payload.NamesCreated)
    (hKeys : TaskRepo.KeysDistinct db.tasks) (hSafe : SafeFrom shelter (envelopes.map EventEnvelope.payload))
    (hShows : shelter.Shows db) (h : applyEvents env envelopes db = (outcome, db')) : Planned db' := by
  induction envelopes generalizing db shelter with
  | nil =>
    obtain ⟨_, rfl⟩ := pure_eq.mp h
    exact hShows.planned hSafe
  | cons envelope rest ih =>
    obtain ⟨hNamed, hRestNamed⟩ := forall_mem_cons.mp hNames
    obtain ⟨hFirst, hRest⟩ := hSafe
    unfold applyEvents batchProjectors at h
    rw [flatMap_cons, inTurn_append] at h
    cases hRun : Stateful.inTurn (projectors (env.part envelope.seq) envelope) db with
    | mk done middle =>
    rw [hRun] at h
    cases done with
    | error e =>
      cases h
      obtain ⟨hNotSteady, hNotStands, hKept⟩ := refused_cases hNamed hKeys hRun hShows
      exact hKept.planned ((hFirst.resolve_left hNotSteady).resolve_left hNotStands)
    | ok done =>
      have hSteps : ∀ step ∈ projectors (env.part envelope.seq) envelope, ∀ db db', step db = .ok db' → KeepsKeys db db' :=
        fun step hStep db db' hTaken => projectors_keepKeys hStep hTaken
      have hMiddleKeys : TaskRepo.KeysDistinct middle.tasks :=
        inTurn_rel KeepsKeys.refl (fun _ _ _ => KeepsKeys.trans) hSteps hRun hKeys
      rcases applyEvent_shelters hNamed hRun hShows with ⟨hRefused, _⟩ | hTaken
      · exact absurd rfl hRefused
      · exact ih hRestNamed hMiddleKeys hRest hTaken h

end Projections
end Daruma
