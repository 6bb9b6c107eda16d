import Daruma.Storage.TaskRepo

/-! What an event can do to the row of a task. -/
namespace Daruma

open KeyedTable

namespace TaskEvent

def created : TaskEvent → List NewTask
  | .taskCreated new => [new]
  | .taskSplitGenerated _ subtasks => subtasks
  | _ => []

def SetsStatus (event : TaskEvent) (id : TaskId) (status : Status) : Prop :=
  match event with
  | .taskUpdated taskId patch => taskId = id ∧ patch.status = some status
  | .taskStatusChanged taskId _ toStatus => taskId = id ∧ toStatus = status
  | .taskCompleted taskId .. => taskId = id ∧ status = .done
  | _ => False

def CreatesWith (event : TaskEvent) (id : TaskId) (status : Status) : Prop :=
  ∃ new ∈ event.created, (new.id = none ∨ new.id = some id) ∧ new.status.getD .inbox = status

def WritesStatus (event : TaskEvent) (id : TaskId) (status : Status) : Prop :=
  event.SetsStatus id status ∨ event.CreatesWith id status

end TaskEvent

namespace TaskRepo

structure InsertedAs (new : NewTask) (row : Task) : Prop where
  id : new.id = none ∨ new.id = some row.id
  key : row.externalKey = new.externalKey
  status : row.status = new.status.getD .inbox

inductive RowStep (event : TaskEvent) (found : Option Task) (row : Task) : Prop where
  | rewritten {old : Task} (hFound : found = some old) (hKey : row.externalKey = old.externalKey)
      (hStatus : row.status = old.status ∨ event.SetsStatus row.id row.status)
  | inserted {new : NewTask} (hNew : new ∈ event.created) (hInserted : InsertedAs new row)

theorem RowStep.kept {event : TaskEvent} {found : Option Task} {row : Task} (h : found = some row) :
    RowStep event found row :=
  .rewritten h rfl (.inl rfl)

variable {tasks tasks' : Tasks} {env : Env} {envelope : EventEnvelope} {event : TaskEvent} {row : Task}

variable {task : Task}

/-- An accepted row is in the table with the pipeline position of the row before
it, and every other row is where it was. -/
theorem find?_upsertTask (h : upsertTask tasks task = .ok tasks') (id : TaskId) :
    tasks'.find? id = if task.id = id then
      some { task with pipelinePosition := (tasks.find? task.id).bind Task.pipelinePosition }
    else tasks.find? id := by
  unfold upsertTask at h
  split at h
  · cases h
  · cases h
    exact find?_upsert _ _ _

theorem upsertTask_keyFree (h : upsertTask tasks task = .ok tasks') : keyTaken tasks task = false := by
  unfold upsertTask at h
  split at h
  · cases h
  · rename_i hFree
    simpa using hFree

theorem updateTask_row {taskId : TaskId} {f : Task → Task}
    (h : updateTask tasks taskId f = .ok tasks') (hId : ∀ old, (f old).id = old.id)
    (hKey : ∀ old, (f old).externalKey = old.externalKey)
    (hStatus : ∀ old, (f old).status = old.status ∨ event.SetsStatus taskId (f old).status)
    (hRow : tasks'.find? row.id = some row) : RowStep event (tasks.find? row.id) row := by
  unfold updateTask at h
  split at h
  · cases h
    exact .kept hRow
  · rename_i old hOld
    have hOldId : old.id = taskId := key_of_find? hOld
    rw [find?_upsertTask h] at hRow
    split at hRow
    · rename_i hSame
      cases hRow
      have hFound : tasks.find? (f old).id = some old := by rw [hId, hOldId, hOld]
      refine .rewritten hFound (hKey old) ?_
      · have hRowId : (f old).id = taskId := (hId old).trans hOldId
        rcases hStatus old with hKept | hSet
        · exact .inl hKept
        · exact .inr (hRowId.symm ▸ hSet)
    · exact .kept hRow

theorem upsertNew_row {sourceEventId : Option EventId} {minted : TaskId} {new : NewTask}
    (h : upsertTask tasks (newTaskRow envelope sourceEventId minted new) = .ok tasks')
    (hRow : tasks'.find? row.id = some row) : tasks.find? row.id = some row ∨ InsertedAs new row := by
  rw [find?_upsertTask h] at hRow
  split at hRow
  · rename_i hSame
    have hStored := (Option.some.inj hRow).symm
    refine .inr ⟨?_, by rw [hStored]; rfl, by rw [hStored]; rfl⟩
    cases hId : new.id with
    | none => exact .inl rfl
    | some id =>
      refine .inr ?_
      rw [← hSame]
      simp [newTaskRow, hId]
  · exact .inl hRow

theorem insertSubtasks_row {subtasks : List NewTask} {n : Nat}
    (h : insertSubtasks env envelope tasks n subtasks = .ok tasks') (hRow : tasks'.find? row.id = some row) :
    tasks.find? row.id = some row ∨ ∃ new ∈ subtasks, InsertedAs new row := by
  induction subtasks generalizing tasks n with
  | nil =>
    cases h
    exact .inl hRow
  | cons new rest ih =>
    unfold insertSubtasks at h
    split at h
    · cases h
    · rename_i middle hFirst
      rcases ih h with hMiddle | ⟨other, hOther, hInserted⟩
      · rcases upsertNew_row hFirst hMiddle with hKept | hInserted
        · exact .inl hKept
        · exact .inr ⟨new, List.mem_cons_self, hInserted⟩
      · exact .inr ⟨other, List.mem_cons_of_mem _ hOther, hInserted⟩

theorem find?_stampPipelinePosition (tasks : Tasks) (id other : TaskId) (position : PipelinePosition) :
    (stampPipelinePosition tasks id position).find? other =
      if id = other then (tasks.find? other).map fun task => { task with pipelinePosition := some position }
      else tasks.find? other := by
  unfold stampPipelinePosition
  rw [find?_modify]
  exact fun _ => rfl

theorem RowStep.of_stamped {stamped : Task} {id : TaskId} {position : PipelinePosition}
    (h : ∀ row, tasks'.find? row.id = some row → RowStep event (tasks.find? row.id) row)
    (hRow : (stampPipelinePosition tasks' id position).find? stamped.id = some stamped) :
    RowStep event (tasks.find? stamped.id) stamped := by
  rw [find?_stampPipelinePosition] at hRow
  split at hRow
  · rename_i hSame
    obtain ⟨row, hFind, rfl⟩ := Option.map_eq_some_iff.mp hRow
    have hStep := h row (by rw [key_of_find? hFind]; exact hFind)
    cases hStep with
    | rewritten hFound hKey hStatus => exact .rewritten hFound hKey hStatus
    | inserted hNew hInserted => exact .inserted hNew ⟨hInserted.id, hInserted.key, hInserted.status⟩
  · exact h stamped hRow

theorem applyTaskEvent_row (h : applyTaskEvent tasks env envelope event = .ok tasks')
    (hRow : tasks'.find? row.id = some row) : RowStep event (tasks.find? row.id) row := by
  cases event with
  | taskCreated new =>
    rcases upsertNew_row h hRow with hKept | hInserted
    · exact .kept hKept
    · exact .inserted List.mem_cons_self hInserted
  | taskUpdated taskId patch =>
    unfold applyTaskEvent at h
    dsimp only at h
    split at h
    · cases h
    · rename_i patched hPatched
      have hStep : ∀ row, patched.find? row.id = some row →
          RowStep (.taskUpdated taskId patch) (tasks.find? row.id) row := by
        intro row hRow
        refine updateTask_row hPatched (fun _ => rfl) (fun _ => rfl) (fun old => ?_) hRow
        cases hPatch : patch.status with
        | none => exact .inl (by simp [patchRow, stampLastChange, hPatch])
        | some status => exact .inr ⟨rfl, by simp [patchRow, stampLastChange, hPatch]⟩
      split at h
      · cases h
        exact hStep row hRow
      · cases h
        exact RowStep.of_stamped hStep hRow
  | taskStatusChanged | taskCompleted =>
    exact updateTask_row h (fun _ => rfl) (fun _ => rfl) (fun _ => .inr ⟨rfl, rfl⟩) hRow
  | taskPriorityChanged | taskReopened | taskClosed =>
    exact updateTask_row h (fun _ => rfl) (fun _ => rfl) (fun _ => .inl rfl) hRow
  | taskDeleted taskId =>
    cases h
    by_cases hSame : row.id = taskId
    · rw [hSame, find?_erase_self] at hRow
      cases hRow
    · rw [find?_erase_of_ne _ hSame] at hRow
      exact .kept hRow
  | taskSplitGenerated parent subtasks =>
    rcases insertSubtasks_row h hRow with hKept | ⟨new, hNew, hInserted⟩
    · exact .kept hKept
    · exact .inserted hNew hInserted
  | taskUnblocked | taskDueElapsed | taskContested =>
    cases h
    exact .kept hRow

end TaskRepo
end Daruma
