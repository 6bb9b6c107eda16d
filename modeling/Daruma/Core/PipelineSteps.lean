import Daruma.Core.LifecycleSteps

/-! The placement of a task: its status and its pipeline position. Each event of the log is a
function on it, and so is a projected batch. -/
namespace Daruma

abbrev Placement := Status × Option PipelinePosition

def Task.placement (task : Task) : Placement := (task.status, task.pipelinePosition)

/-- The placement of an input that names its task: a row of that id keeps its position. -/
def NewTask.placement (new : NewTask) (id : TaskId) (before : Option Placement) : Option Placement :=
  if new.id = some id then some (new.status.getD .inbox, before.bind Prod.snd) else before

def TaskEvent.placement (event : TaskEvent) (id : TaskId) (before : Option Placement) : Option Placement :=
  match event with
  | .taskCreated new => new.placement id before
  | .taskSplitGenerated _ subtasks => subtasks.foldl (fun row new => new.placement id row) before
  | .taskUpdated taskId patch =>
    if taskId = id then before.map fun row => (patch.status.getD row.1, patch.pipelinePosition.or row.2) else before
  | .taskStatusChanged taskId _ toStatus => if taskId = id then before.map fun row => (toStatus, row.2) else before
  | .taskCompleted taskId .. => if taskId = id then before.map fun row => (.done, row.2) else before
  | .taskDeleted taskId => if taskId = id then none else before
  | .taskReopened .. | .taskClosed .. | .taskPriorityChanged .. | .taskUnblocked .. | .taskDueElapsed ..
  | .taskContested .. => before

namespace TaskRepo

def placementOf (tasks : Tasks) (id : TaskId) : Option Placement :=
  (tasks.find? id).map Task.placement

variable {tasks tasks' : Tasks} {env : Env} {envelope : EventEnvelope} {event : TaskEvent} {id : TaskId}

theorem placementOf_position (tasks : Tasks) (id : TaskId) :
    (placementOf tasks id).bind Prod.snd = (tasks.find? id).bind Task.pipelinePosition := by
  rw [placementOf]
  cases tasks.find? id with
  | none | some => rfl

theorem placementOf_upsertTask {task : Task} (h : upsertTask tasks task = .ok tasks') : placementOf tasks' id =
      if task.id = id then some (task.status, (placementOf tasks id).bind Prod.snd) else placementOf tasks id := by
  rw [placementOf, find?_upsertTask h]
  split
  · rename_i hSame
    rw [placementOf_position, ← hSame]
    rfl
  · rfl

theorem placementOf_updateTask {taskId : TaskId} {f : Task → Task} (g : Status → Status)
    (h : updateTask tasks taskId f = .ok tasks') (hId : ∀ old, (f old).id = old.id)
    (hStatus : ∀ old, (f old).status = g old.status) : placementOf tasks' id =
      if taskId = id then (placementOf tasks id).map fun row => (g row.1, row.2) else placementOf tasks id := by
  unfold updateTask at h
  split at h
  · rename_i hNone
    cases h
    split
    · rename_i hSame
      rw [placementOf, ← hSame, hNone]
      rfl
    · rfl
  · rename_i old hOld
    rw [placementOf_upsertTask h, hId, KeyedTable.key_of_find? hOld]
    split
    · rename_i hSame
      rw [placementOf, ← hSame, hOld, hStatus]
      rfl
    · rfl

theorem placementOf_insertNew {sourceEventId : Option EventId} {minted : TaskId} {new : NewTask}
    (h : upsertTask tasks (newTaskRow envelope sourceEventId minted new) = .ok tasks')
    (hId : new.id.isSome = true) : placementOf tasks' id = new.placement id (placementOf tasks id) := by
  obtain ⟨given, hGiven⟩ := Option.isSome_iff_exists.mp hId
  have hRowId : (newTaskRow envelope sourceEventId minted new).id = given := by
    rw [newTaskRow, hGiven, Option.getD_some]
  rw [placementOf_upsertTask h, hRowId, NewTask.placement, hGiven]
  by_cases hSame : given = id
  · rw [if_pos hSame, if_pos (congrArg some hSame)]
    rfl
  · rw [if_neg hSame, if_neg fun hOther => hSame (Option.some.inj hOther)]

theorem placementOf_insertSubtasks {subtasks : List NewTask} {n : Nat}
    (h : insertSubtasks env envelope tasks n subtasks = .ok tasks') (hIds : ∀ new ∈ subtasks, new.id.isSome = true) :
    placementOf tasks' id = subtasks.foldl (fun row new => new.placement id row) (placementOf tasks id) := by
  induction subtasks generalizing tasks n with
  | nil =>
    cases h
    rfl
  | cons new rest ih =>
    obtain ⟨hNew, hRest⟩ := List.forall_mem_cons.mp hIds
    unfold insertSubtasks at h
    split at h
    · cases h
    · rename_i middle hFirst
      rw [List.foldl_cons, ← placementOf_insertNew hFirst hNew]
      exact ih h hRest

theorem placementOf_stampPipelinePosition (tasks : Tasks) (taskId id : TaskId) (position : PipelinePosition) :
    placementOf (stampPipelinePosition tasks taskId position) id =
      if taskId = id then (placementOf tasks id).map fun row => (row.1, some position) else placementOf tasks id := by
  rw [placementOf, find?_stampPipelinePosition]
  split
  · rw [placementOf, Option.map_map, Option.map_map]
    rfl
  · rfl

theorem placementOf_applyTaskEvent (h : applyTaskEvent tasks env envelope event = .ok tasks')
    (hIds : ∀ new ∈ event.created, new.id.isSome = true) :
    placementOf tasks' id = event.placement id (placementOf tasks id) := by
  have hSame : ∀ {taskId : TaskId} {f : Task → Task}, updateTask tasks taskId f = .ok tasks' →
      (∀ old, (f old).id = old.id) → (∀ old, (f old).status = old.status) →
      placementOf tasks' id = placementOf tasks id := by
    intro taskId f hUpdated hId hStatus
    rw [placementOf_updateTask (fun status => status) hUpdated hId hStatus, Option.map_id']
    exact ite_self _
  cases event with
  | taskCreated new => exact placementOf_insertNew h (hIds new (List.mem_singleton_self new))
  | taskUpdated taskId patch =>
    unfold applyTaskEvent at h
    dsimp only at h
    split at h
    · cases h
    · rename_i patched hPatched
      have hRow : placementOf patched id = if taskId = id then
          (placementOf tasks id).map fun row => (patch.status.getD row.1, row.2) else placementOf tasks id := by
        refine placementOf_updateTask (fun status => patch.status.getD status) hPatched (fun _ => ?_) fun _ => ?_
        · rfl
        · rfl
      split at h
      · rename_i hNone
        cases h
        rw [hRow, TaskEvent.placement, hNone]
        rfl
      · rename_i position hPosition
        cases h
        rw [placementOf_stampPipelinePosition, hRow, TaskEvent.placement, hPosition]
        split
        · rw [Option.map_map]
          rfl
        · rfl
  | taskStatusChanged taskId fromStatus toStatus =>
    refine placementOf_updateTask (fun _ => toStatus) h (fun _ => ?_) fun _ => ?_
    · rfl
    · rfl
  | taskCompleted taskId completedAt completionNote =>
    refine placementOf_updateTask (fun _ => .done) h (fun _ => ?_) fun _ => ?_
    · rfl
    · rfl
  | taskDeleted taskId =>
    cases h
    rw [placementOf, TaskEvent.placement]
    split
    · rename_i hSame
      rw [hSame, KeyedTable.find?_erase_self]
      rfl
    · rename_i hOther
      rw [KeyedTable.find?_erase_of_ne _ (Ne.symm hOther), placementOf]
  | taskSplitGenerated parent subtasks => exact placementOf_insertSubtasks h hIds
  | taskPriorityChanged | taskReopened | taskClosed =>
    refine hSame h (fun _ => ?_) fun _ => ?_
    · rfl
    · rfl
  | taskUnblocked | taskDueElapsed | taskContested =>
    cases h
    rfl

end TaskRepo

open List

def Event.placement (event : Event) (id : TaskId) (before : Option Placement) : Option Placement :=
  match event with
  | .task event => event.placement id before
  | _ => before

def placementAfter (events : List Event) (id : TaskId) (before : Option Placement) : Option Placement :=
  events.foldl (fun row event => event.placement id row) before

def Database.placementOf (db : Database) (id : TaskId) : Option Placement :=
  TaskRepo.placementOf db.tasks id

theorem Database.placementOf_position {db : Database} {id : TaskId} :
    (db.placementOf id).bind Prod.snd = TaskRepo.pipelinePosition db id :=
  TaskRepo.placementOf_position db.tasks id

theorem Database.placementOf_status {db : Database} {id : TaskId} :
    (db.placementOf id).map Prod.fst = db.statusOf id := by
  rw [placementOf, TaskRepo.placementOf, Option.map_map]
  rfl

def Event.placing (event : Event) (id : TaskId) : Option (Option PipelinePosition) :=
  match event with
  | .task (.taskUpdated taskId patch) => if taskId = id then patch.pipelinePosition.map some else none
  | .task (.taskDeleted taskId) => if taskId = id then some none else none
  | _ => none

/-- An event that leaves every placement alone. -/
structure Event.Unplaced (event : Event) : Prop where
  row : ∀ id row, event.placement id row = row
  silent : ∀ id, event.placing id = none

def placings (events : List Event) (id : TaskId) : List (Option PipelinePosition) :=
  events.filterMap fun event => event.placing id

section

variable {first second events : List Event} {event : Event} {id : TaskId} {before : Option Placement}

theorem placementAfter_cons :
    placementAfter (event :: events) id before = placementAfter events id (event.placement id before) := rfl

theorem placementAfter_append :
    placementAfter (first ++ second) id before = placementAfter second id (placementAfter first id before) :=
  foldl_append

theorem placings_append : placings (first ++ second) id = placings first id ++ placings second id :=
  filterMap_append

theorem placementAfter_unplaced (h : Everywhere Event.Unplaced events) : placementAfter events id before = before := by
  induction events with
  | nil => rfl
  | cons event rest ih =>
    obtain ⟨hFirst, hRest⟩ := forall_mem_cons.mp h
    rw [placementAfter_cons, hFirst.row]
    exact ih hRest

theorem placings_unplaced (h : Everywhere Event.Unplaced events) : placings events id = [] :=
  filterMap_eq_nil_iff.mpr fun event hMem => (h event hMem).silent id

theorem unplaced_of_isAudit (h : event.isAudit = true) : event.Unplaced := by
  cases event with
  | audit event => exact ⟨fun _ _ => rfl, fun _ => rfl⟩
  | _ => cases h

theorem unplaced_of_isRelease (h : Handler.IsRelease event) : event.Unplaced := by
  obtain ⟨_, _, _, rfl⟩ := h
  exact ⟨fun _ _ => rfl, fun _ => rfl⟩

end

namespace Projections

variable {env : Env} {envelope : EventEnvelope} {db db' : Database}

theorem tasks_placements (h : tasks env envelope db = .ok db') (hNames : envelope.payload.NamesCreated)
    (id : TaskId) : db'.placementOf id = envelope.payload.placement id (db.placementOf id) := by
  obtain ⟨written, hWritten, rfl⟩ := tasks_ok h
  unfold TaskRepo.applyEvent at hWritten
  split at hWritten
  · rename_i event hPayload
    rw [hPayload] at hNames ⊢
    exact TaskRepo.placementOf_applyTaskEvent hWritten hNames
  · rename_i hOther
    cases hWritten
    unfold Event.placement
    split
    · rename_i event hPayload
      exact absurd hPayload (hOther event)
    · rfl

def SamePlacements (before after : Database) : Prop := after.placementOf = before.placementOf

theorem SamePlacements.refl (db : Database) : SamePlacements db db := rfl

theorem SamePlacements.trans {first second third : Database} (h : SamePlacements first second)
    (h' : SamePlacements second third) : SamePlacements first third := Eq.trans h' h

theorem SamePlacements.of_tasks_eq {before after : Database} (h : after.tasks = before.tasks) :
    SamePlacements before after := by
  funext id
  rw [Database.placementOf, h, Database.placementOf]

theorem plans_placements (db : Database) (env : Env) (envelope : EventEnvelope) :
    SamePlacements db (PlanRepo.applyEvent db env envelope) := by
  funext id
  refine PlanRepo.applyEvent_tasks_rule (P := fun tasks => TaskRepo.placementOf tasks id = db.placementOf id) rfl fun _ _ _ _ _ _ => ?_
  rw [TaskRepo.placementOf, KeyedTable.find?_modify]
  · split
    · rw [Option.map_map]
      rfl
    · rfl
  · exact fun _ => rfl

theorem otherProjectors_placements {step : Database → Result Database}
    (hStep : step ∈ (projectors env envelope).tail) (h : step db = .ok db') : SamePlacements db db' := by
  obtain ⟨_, hLater, hWrote⟩ := exists_wrote_drop (drop_one ▸ hStep) h
  cases hWrote with
  | tasks => exact absurd hLater (by decide)
  | plans hApplied => exact hApplied ▸ plans_placements db env envelope
  | _ => exact .of_tasks_eq rfl

variable {outcome : Except CoreError Unit}

theorem projectors_placements (h : Stateful.inTurn (projectors env envelope) db = (outcome, db'))
    (hNames : envelope.payload.NamesCreated) : (outcome ≠ .ok () ∧ db'.placementOf = db.placementOf) ∨
      db'.placementOf = fun id => envelope.payload.placement id (db.placementOf id) := by
  rcases Stateful.inTurn_cons h with ⟨e, _, rfl, rfl⟩ | ⟨middle, hTasks, hOthers⟩
  · exact .inl ⟨nofun, rfl⟩
  · have hRest : SamePlacements middle db' := Stateful.inTurn_rel SamePlacements.refl (fun _ _ _ => .trans)
      (fun step hStep _ _ hRun => otherProjectors_placements hStep hRun) hOthers
    refine .inr (Eq.trans hRest (funext fun id => ?_))
    exact tasks_placements hTasks hNames id

/-- Projecting a batch, however far it gets, has the effect of a first part of it,
and of all of it when nothing was refused. -/
theorem applyEvents_placements {envelopes : List EventEnvelope} (h : applyEvents env envelopes db = (outcome, db'))
    (hNames : ∀ envelope ∈ envelopes, envelope.payload.NamesCreated) :
    ∃ applied left, envelopes.map EventEnvelope.payload = applied ++ left ∧ (outcome = .ok () → left = []) ∧
      ∀ id, db'.placementOf id = placementAfter applied id (db.placementOf id) := by
  obtain ⟨taken, left, hSplit, hAll, hFold⟩ := Stateful.inTurn_fold Database.placementOf
    (fun before envelope id => EventEnvelope.payload envelope |>.placement id (before id))
    (fun envelope hMem _ _ _ hRun => projectors_placements hRun (hNames envelope hMem)) h
  refine ⟨taken.map EventEnvelope.payload, left.map EventEnvelope.payload, ?_, fun hOk => ?_, fun id => ?_⟩
  · rw [hSplit, map_append]
  · rw [hAll hOk, map_nil]
  · rw [hFold]
    clear hFold hSplit
    generalize db.placementOf = before
    induction taken generalizing before with
    | nil => rfl
    | cons envelope rest ih => exact ih _

end Projections

namespace AutoAppend

open Projections (SamePlacements)

variable {config : Config} {env : Env} {db : Database} 

theorem autoAppendLogs_placements (db : Database) (envelopes : List EventEnvelope) :
    SamePlacements db (autoAppendLogs config env db envelopes) := by
  obtain ⟨_, _, _, _, _, _, hLines, _⟩ := autoAppendLogs_lines envelopes db
  rw [hLines]
  exact .of_tasks_eq rfl

end AutoAppend

namespace Server

open Projections (SamePlacements)

theorem serve_placements {config : Config} {call : Call} (hCall : Call.isCommand call = false) (db : Database) :
    SamePlacements db (serve config db call) := by
  refine serve_rule hCall fun ⟨_, _, _, _, _, _, hFrame, _⟩ => ?_
  rw [hFrame]
  exact .of_tasks_eq rfl

end Server
end Daruma
