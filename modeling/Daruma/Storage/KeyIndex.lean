import Daruma.Storage.TaskSteps

/-! The unique index over external keys. A rewrite that keeps the key of its row
is never refused by it. -/
namespace Daruma

open KeyedTable

namespace TaskRepo

def KeysDistinct (tasks : Tasks) : Prop :=
  ∀ first ∈ tasks, ∀ second ∈ tasks, first.externalKey.isSome = true →
    first.externalKey = second.externalKey → first.id = second.id

theorem KeysDistinct.empty : KeysDistinct (.empty : Tasks) :=
  fun _ h => absurd h (not_mem_empty _)

variable {tasks tasks' : Tasks} {env : Env} {envelope : EventEnvelope} {event : TaskEvent}

theorem KeysDistinct.of_rows (h : KeysDistinct tasks)
    (hRows : ∀ row ∈ tasks', ∃ old ∈ tasks, row.id = old.id ∧ row.externalKey = old.externalKey) :
    KeysDistinct tasks' := by
  intro first hFirst second hSecond hKey hSame
  obtain ⟨old, hOld, hId, hOldKey⟩ := hRows first hFirst
  obtain ⟨old', hOld', hId', hOldKey'⟩ := hRows second hSecond
  rw [hOldKey] at hKey
  rw [hOldKey, hOldKey'] at hSame
  rw [hId, hId']
  exact h old hOld old' hOld' hKey hSame

variable {task : Task} {taskId : TaskId} {f : Task → Task}

theorem keyTaken_eq_false : keyTaken tasks task = false ↔
      (task.externalKey.isSome = true → ∀ other ∈ tasks, other.externalKey = task.externalKey → other.id = task.id) := by
  unfold keyTaken
  rw [Bool.and_eq_false_iff]
  constructor
  · rintro (hNone | hNoOther) hSome other hOther hKey
    · rw [hNone] at hSome
      cases hSome
    · have hOne := List.any_eq_false.mp hNoOther other hOther
      by_contra hId
      exact hOne (by simp [hKey, hId])
  · intro h
    cases hKey : task.externalKey.isSome with
    | false => exact .inl rfl
    | true =>
      refine .inr (List.any_eq_false.mpr fun other hOther hBoth => ?_)
      simp only [Bool.and_eq_true, decide_eq_true_eq] at hBoth
      exact hBoth.2 (h hKey other hOther hBoth.1)

theorem KeysDistinct.upsertTask (h : KeysDistinct tasks)
    (hOk : TaskRepo.upsertTask tasks task = .ok tasks') : KeysDistinct tasks' := by
  have hFree := keyTaken_eq_false.mp (upsertTask_keyFree hOk)
  unfold TaskRepo.upsertTask at hOk
  split at hOk
  · cases hOk
  · cases hOk
    intro first hFirst second hSecond hKey hSame
    rcases mem_upsert.mp hFirst with rfl | ⟨hFirst, _⟩
    · rcases mem_upsert.mp hSecond with rfl | ⟨hSecond, _⟩
      · rfl
      · exact (hFree hKey second hSecond hSame.symm).symm
    · rcases mem_upsert.mp hSecond with rfl | ⟨hSecond, _⟩
      · exact hFree (hSame ▸ hKey) first hFirst hSame
      · exact h first hFirst second hSecond hKey hSame

theorem KeysDistinct.updateTask (h : KeysDistinct tasks)
    (hOk : TaskRepo.updateTask tasks taskId f = .ok tasks') : KeysDistinct tasks' := by
  unfold TaskRepo.updateTask at hOk
  split at hOk
  · cases hOk
    exact h
  · exact h.upsertTask hOk

theorem KeysDistinct.insertSubtasks {subtasks : List NewTask} {n : Nat} (h : KeysDistinct tasks)
    (hOk : TaskRepo.insertSubtasks env envelope tasks n subtasks = .ok tasks') : KeysDistinct tasks' := by
  induction subtasks generalizing tasks n with
  | nil =>
    cases hOk
    exact h
  | cons new rest ih =>
    unfold TaskRepo.insertSubtasks at hOk
    split at hOk
    · cases hOk
    · rename_i middle hFirst
      exact ih (h.upsertTask hFirst) hOk

theorem KeysDistinct.stampPipelinePosition {id : TaskId} {position : PipelinePosition} (h : KeysDistinct tasks) :
    KeysDistinct (TaskRepo.stampPipelinePosition tasks id position) := by
  refine h.of_rows fun row hRow => ?_
  have hFind := find?_of_mem hRow
  rw [find?_stampPipelinePosition] at hFind
  split at hFind
  · obtain ⟨old, hOld, rfl⟩ := Option.map_eq_some_iff.mp hFind
    exact ⟨old, mem_of_find? hOld, rfl, rfl⟩
  · exact ⟨row, mem_of_find? hFind, rfl, rfl⟩

theorem KeysDistinct.applyTaskEvent (h : KeysDistinct tasks)
    (hOk : TaskRepo.applyTaskEvent tasks env envelope event = .ok tasks') : KeysDistinct tasks' := by
  cases event with
  | taskCreated => exact h.upsertTask hOk
  | taskUpdated taskId patch =>
    unfold TaskRepo.applyTaskEvent at hOk
    dsimp only at hOk
    split at hOk
    · cases hOk
    · rename_i patched hPatched
      split at hOk
      · cases hOk
        exact h.updateTask hPatched
      · cases hOk
        exact (h.updateTask hPatched).stampPipelinePosition
  | taskStatusChanged | taskPriorityChanged | taskCompleted | taskReopened | taskClosed =>
    exact h.updateTask hOk
  | taskDeleted =>
    cases hOk
    exact h.of_rows fun row hRow => ⟨row, (mem_erase.mp hRow).1, rfl, rfl⟩
  | taskSplitGenerated => exact h.insertSubtasks hOk
  | taskUnblocked | taskDueElapsed | taskContested =>
    cases hOk
    exact h

theorem KeysDistinct.applyEvent (h : KeysDistinct tasks)
    (hOk : TaskRepo.applyEvent tasks env envelope = .ok tasks') : KeysDistinct tasks' := by
  unfold TaskRepo.applyEvent at hOk
  split at hOk
  · exact h.applyTaskEvent hOk
  · cases hOk
    exact h

theorem KeysDistinct.updateTask_ok (h : KeysDistinct tasks)
    (hId : ∀ old, (f old).id = old.id) (hKey : ∀ old, (f old).externalKey = old.externalKey) :
    ∃ tasks', TaskRepo.updateTask tasks taskId f = .ok tasks' := by
  unfold TaskRepo.updateTask
  split
  · exact ⟨tasks, rfl⟩
  · rename_i old hOld
    have hFree : keyTaken tasks (f old) = false := by
      refine keyTaken_eq_false.mpr fun hSome other hOther hSame => ?_
      rw [hKey] at hSome hSame
      rw [hId]
      exact (h old (mem_of_find? hOld) other hOther hSome hSame.symm).symm
    unfold TaskRepo.upsertTask
    rw [hFree]
    exact ⟨_, rfl⟩

theorem KeysDistinct.applyTaskEvent_ok (h : KeysDistinct tasks) (hNone : event.created = []) :
    ∃ tasks', TaskRepo.applyTaskEvent tasks env envelope event = .ok tasks' := by
  cases event with
  | taskCreated => cases hNone
  | taskUpdated taskId patch =>
    have hPatch : ∃ patched, TaskRepo.updateTask tasks taskId (patchRow envelope patch) = .ok patched :=
      h.updateTask_ok (fun _ => rfl) fun _ => rfl
    obtain ⟨patched, hPatched⟩ := hPatch
    unfold TaskRepo.applyTaskEvent
    dsimp only
    rw [hPatched]
    dsimp only
    split
    · exact ⟨_, rfl⟩
    · exact ⟨_, rfl⟩
  | taskStatusChanged | taskPriorityChanged | taskCompleted | taskReopened | taskClosed =>
    exact h.updateTask_ok (fun _ => rfl) fun _ => rfl
  | taskSplitGenerated parent subtasks =>
    have hEmpty : subtasks = [] := hNone
    exact ⟨tasks, by rw [hEmpty]; rfl⟩
  | taskDeleted | taskUnblocked | taskDueElapsed | taskContested => exact ⟨_, rfl⟩

end TaskRepo
end Daruma
