import Daruma.Library.Sequences
import Daruma.Storage.TaskRepo

/-! The versions of tasks: what the projection of tasks records, in the transaction
in which it writes a row. -/
namespace Daruma

open KeyedTable List
open TaskRepo (newTaskRow upsertTask patchRow updateTask insertSubtasks applyEvent)

open ChangeHistory (Links links_concat latest latest_range')

structure TaskVersion where
  taskId : TaskId
  versionNumber : Nat
  before : Option Task
  after : Option Task
  actor : Actor
  sourceEventId : EventId
  sourceEventSeq : Nat
  createdAt : Timestamp

structure TaskChange where
  taskId : TaskId
  before : Option Task
  after : Option Task

namespace EntityVersion

/-- What is recorded of a row. The pipeline position is not part of it. -/
def taskValue (task : Task) : Task := { task with pipelinePosition := none }

def valueOf (tasks : Tasks) (id : TaskId) : Option Task := (tasks.find? id).map taskValue

def history (versions : List TaskVersion) (id : TaskId) : List TaskVersion :=
  versions.filter fun version => version.taskId = id

def insertEntityVersion (envelope : EventEnvelope) (versions : List TaskVersion) (change : TaskChange) :
    List TaskVersion :=
  if change.before = change.after then versions
  else if versions.any fun version => version.taskId = change.taskId && version.sourceEventId = envelope.id then versions
  else versions ++ [⟨change.taskId, latest ((history versions change.taskId).map TaskVersion.versionNumber) + 1,
    change.before, change.after, envelope.actor, envelope.id, envelope.seq, envelope.occurredAt⟩]

def rewrite (tasks : Tasks) (id : TaskId) (f : Task → Task) : List TaskChange :=
  match tasks.find? id with
  | none => []
  | some task => [⟨id, some (taskValue task), some (taskValue (f task))⟩]

def created (task : Task) : TaskChange := ⟨task.id, none, some (taskValue task)⟩

def subtaskRows (env : Env) (envelope : EventEnvelope) : Nat → List NewTask → List Task
  | _, [] => []
  | n, new :: rest =>
    newTaskRow envelope (some envelope.id) (env.fresh n) new :: subtaskRows env envelope (n + 1) rest

def taskChanges (tasks : Tasks) (env : Env) (envelope : EventEnvelope) : TaskEvent → List TaskChange
  | .taskCreated new => [created (newTaskRow envelope new.sourceEventId (env.fresh 0) new)]
  | .taskUpdated taskId patch => rewrite tasks taskId (patchRow envelope patch)
  | .taskStatusChanged taskId _ toStatus => rewrite tasks taskId (TaskRepo.statusRow envelope toStatus)
  | .taskPriorityChanged taskId _ toPriority => rewrite tasks taskId (TaskRepo.priorityRow envelope toPriority)
  | .taskCompleted taskId completedAt _ => rewrite tasks taskId (TaskRepo.completedRow envelope completedAt)
  | .taskDeleted taskId =>
    match tasks.find? taskId with
    | none => []
    | some task => [⟨taskId, some (taskValue task), none⟩]
  | .taskSplitGenerated _ subtasks => (subtaskRows env envelope 0 subtasks).map created
  | .taskReopened taskId _ instant => rewrite tasks taskId (TaskRepo.reopenedRow envelope instant)
  | .taskClosed taskId _ instant => rewrite tasks taskId (TaskRepo.closedRow envelope instant)
  | .taskUnblocked .. | .taskDueElapsed .. | .taskContested .. => []

def changesOf (tasks : Tasks) (env : Env) (envelope : EventEnvelope) : List TaskChange :=
  match envelope.payload with
  | .task event => taskChanges tasks env envelope event
  | _ => []

def recordVersions (tasks : Tasks) (env : Env) (envelope : EventEnvelope) (versions : List TaskVersion) :
    List TaskVersion :=
  (changesOf tasks env envelope).foldl (insertEntityVersion envelope) versions

def createdIds (env : Env) (envelope : EventEnvelope) : List TaskId :=
  match envelope.payload with
  | .task (.taskCreated new) => [new.id.getD (env.fresh 0)]
  | .task (.taskSplitGenerated _ subtasks) => (subtaskRows env envelope 0 subtasks).map Task.id
  | _ => []

structure Chained (versions : List TaskVersion) (tasks : Tasks) : Prop where
  numbers : ∀ id, (history versions id).map TaskVersion.versionNumber = List.range' 1 (history versions id).length
  once : ∀ id, ((history versions id).map TaskVersion.sourceEventId).Nodup
  links : ∀ id, Links TaskVersion.before TaskVersion.after none (history versions id) (valueOf tasks id)

variable {versions : List TaskVersion} {tasks tasks' : Tasks} {env : Env} {envelope : EventEnvelope}

theorem Chained.empty : Chained [] .empty := ⟨fun _ => rfl, fun _ => nodup_nil, fun _ => rfl⟩

/-- The rows count by what is recorded of them. -/
theorem Chained.of_values (h : Chained versions tasks) (hSame : ∀ id, valueOf tasks' id = valueOf tasks id) :
    Chained versions tasks' :=
  ⟨h.numbers, h.once, fun id => (hSame id).symm ▸ h.links id⟩

theorem Chained.next {id : TaskId} {first second : TaskVersion} {rest : List TaskVersion}
    (h : Chained versions tasks) (hHistory : history versions id = first :: second :: rest) :
    second.before = first.after := by
  have hLinks := h.links id
  rw [hHistory] at hLinks
  exact hLinks.2.1

variable {change : TaskChange} {version : TaskVersion} {task : Task} {id : TaskId}

theorem insert_cases (h : version ∈ insertEntityVersion envelope versions change) :
    version ∈ versions ∨ (version.sourceEventId = envelope.id ∧ version.taskId = change.taskId) := by
  unfold insertEntityVersion at h
  split at h
  · exact .inl h
  · split at h
    · exact .inl h
    · rcases mem_append.mp h with hOld | hNew
      · exact .inl hOld
      · cases mem_singleton.mp hNew
        exact .inr ⟨rfl, rfl⟩

theorem Chained.insert (h : Chained versions tasks) (hBefore : change.before = valueOf tasks change.taskId)
    (hAfter : ∀ id, valueOf tasks' id = if id = change.taskId then change.after else valueOf tasks id)
    (hFresh : ∀ version ∈ versions, version.taskId = change.taskId → version.sourceEventId ≠ envelope.id) :
    Chained (insertEntityVersion envelope versions change) tasks' := by
  unfold insertEntityVersion
  split
  · rename_i hSame
    refine h.of_values fun id => ?_
    rw [hAfter]
    split
    · rename_i hId
      rw [hId, ← hBefore, hSame]
    · rfl
  · have hNone : (versions.any fun version => version.taskId = change.taskId &&
        version.sourceEventId = envelope.id) = false := by
      refine any_eq_false.mpr fun version hMem hBoth => ?_
      rw [Bool.and_eq_true, decide_eq_true_eq, decide_eq_true_eq] at hBoth
      exact hFresh version hMem hBoth.1 hBoth.2
    rw [if_neg (by rw [hNone]; exact Bool.false_ne_true)]
    have hHistory : ∀ id version, version.taskId = change.taskId →
        history (versions ++ [version]) id = if id = change.taskId then history versions id ++ [version] else history versions id := by
      intro id version hVersion
      rw [history, filter_append]
      split
      · rename_i hId
        rw [filter_cons_of_pos (by rw [decide_eq_true_eq, hVersion, hId]), filter_nil]
        rfl
      · rename_i hId
        rw [filter_cons_of_neg (by rw [decide_eq_true_eq, hVersion]; exact Ne.symm hId), filter_nil, append_nil]
        rfl
    refine ⟨fun id => ?_, fun id => ?_, fun id => ?_⟩
    · rw [hHistory id _ rfl]
      split
      · rename_i hId
        subst hId
        rw [map_append, length_append, length_singleton, range'_1_concat, h.numbers]
        rw [map_cons, map_nil, latest_range', Nat.add_comm 1]
      · exact h.numbers id
    · rw [hHistory id _ rfl]
      split
      · rename_i hId
        rw [map_append, nodup_append]
        refine ⟨h.once id, nodup_singleton _, fun source hSource other hOther hSame => ?_⟩
        obtain ⟨version, hVersion, rfl⟩ := mem_map.mp hSource
        obtain ⟨hMem, hTask⟩ := mem_filter.mp hVersion
        rw [mem_singleton.mp hOther] at hSame
        exact hFresh version hMem ((of_decide_eq_true hTask).trans hId) hSame
      · exact h.once id
    · rw [hHistory id _ rfl, hAfter]
      split
      · rename_i hId
        refine links_concat.mpr ⟨?_, rfl⟩
        rw [hBefore, hId]
        exact h.links change.taskId
      · exact h.links id

theorem valueOf_upsertTask (h : upsertTask tasks task = .ok tasks') (id : TaskId) :
    valueOf tasks' id = if id = task.id then some (taskValue task) else valueOf tasks id := by
  unfold upsertTask at h
  split at h
  · cases h
  · cases h
    rw [valueOf, find?_upsert]
    by_cases hId : task.id = id
    · rw [if_pos hId, if_pos hId.symm]
      rfl
    · rw [if_neg hId, if_neg (Ne.symm hId)]
      rfl

theorem valueOf_stamp {other : TaskId} {position : PipelinePosition} :
    valueOf (TaskRepo.stampPipelinePosition tasks id position) other = valueOf tasks other := by
  have hFind := find?_modify tasks id other
    (fun task : Task => { task with pipelinePosition := some position }) fun _ => rfl
  unfold valueOf TaskRepo.stampPipelinePosition
  rw [hFind]
  split
  · rw [Option.map_map]
    rfl
  · rfl

/-- The rewriting of a row, recorded. -/
theorem Chained.update {f : Task → Task} (h : Chained versions tasks) (hId : ∀ task, (f task).id = task.id)
    (hOk : updateTask tasks id f = .ok tasks')
    (hFresh : ∀ version ∈ versions, version.sourceEventId ≠ envelope.id) :
    Chained ((rewrite tasks id f).foldl (insertEntityVersion envelope) versions) tasks' := by
  unfold updateTask at hOk
  unfold rewrite
  cases hFound : tasks.find? id with
  | none =>
    rw [hFound] at hOk
    cases hOk
    exact h
  | some task =>
    rw [hFound] at hOk
    have hTask : (f task).id = id := (hId task).trans (key_of_find? hFound)
    have hValue : some (taskValue task) = valueOf tasks id := by
      rw [valueOf, hFound]
      rfl
    refine h.insert hValue (fun other => ?_) fun version hMem _ => hFresh version hMem
    rw [valueOf_upsertTask hOk, hTask]

theorem Chained.create (h : Chained versions tasks) (hNew : tasks.find? task.id = none)
    (hOk : upsertTask tasks task = .ok tasks')
    (hFresh : ∀ version ∈ versions, version.taskId = task.id → version.sourceEventId ≠ envelope.id) :
    Chained (insertEntityVersion envelope versions (created task)) tasks' := by
  have hNone : valueOf tasks task.id = none := by
    rw [valueOf, hNew]
    rfl
  exact h.insert hNone.symm (valueOf_upsertTask hOk) hFresh

theorem Chained.createAll {n : Nat} {subtasks : List NewTask} (h : Chained versions tasks)
    (hNew : ∀ task ∈ subtaskRows env envelope n subtasks, tasks.find? task.id = none)
    (hDistinct : ((subtaskRows env envelope n subtasks).map Task.id).Nodup)
    (hOk : insertSubtasks env envelope tasks n subtasks = .ok tasks')
    (hFresh : ∀ version ∈ versions, version.taskId ∈ (subtaskRows env envelope n subtasks).map Task.id →
      version.sourceEventId ≠ envelope.id) :
    Chained (((subtaskRows env envelope n subtasks).map created).foldl (insertEntityVersion envelope) versions) tasks' := by
  induction subtasks generalizing n tasks versions with
  | nil =>
    cases hOk
    exact h
  | cons new rest ih =>
    rw [subtaskRows, map_cons, foldl_cons]
    rw [subtaskRows] at hNew hFresh hDistinct
    rw [map_cons, nodup_cons] at hDistinct
    unfold insertSubtasks at hOk
    split at hOk
    · cases hOk
    · rename_i middle hFirst
      obtain ⟨hHead, hTail⟩ := forall_mem_cons.mp hNew
      have hCreated := h.create hHead hFirst fun version hMem hTask =>
        hFresh version hMem (hTask ▸ mem_cons_self)
      apply ih hCreated _ hDistinct.2 hOk
      · intro version hMem hTask
        rcases insert_cases hMem with hOld | ⟨_, hSame⟩
        · exact hFresh version hOld (mem_cons_of_mem _ hTask)
        · rw [hSame] at hTask
          exact absurd hTask hDistinct.1
      · intro task hMem
        have hOther : task.id ≠ (newTaskRow envelope (some envelope.id) (env.fresh n) new).id :=
          fun hSame => hDistinct.1 (hSame ▸ mem_map_of_mem hMem)
        have hValue := valueOf_upsertTask hFirst task.id
        rw [if_neg hOther, valueOf, valueOf, hTail task hMem] at hValue
        exact Option.map_eq_none_iff.mp hValue

theorem recordVersions_chained (h : Chained versions tasks) (hOk : applyEvent tasks env envelope = .ok tasks')
    (hFresh : ∀ version ∈ versions, version.sourceEventId ≠ envelope.id)
    (hNew : ∀ id ∈ createdIds env envelope, tasks.find? id = none) (hDistinct : (createdIds env envelope).Nodup) :
    Chained (recordVersions tasks env envelope versions) tasks' := by
  unfold applyEvent at hOk
  unfold recordVersions changesOf
  unfold createdIds at hNew hDistinct
  cases hPayload : envelope.payload with
  | task event =>
    rw [hPayload] at hNew hDistinct hOk
    dsimp only at hOk ⊢
    cases event with
    | taskCreated new =>
      have hHead := hNew _ (mem_singleton_self _)
      exact h.create hHead hOk fun version hMem _ => hFresh version hMem
    | taskUpdated taskId patch =>
      dsimp only [TaskRepo.applyTaskEvent] at hOk
      split at hOk
      · cases hOk
      · rename_i updated hUpdated
        have hChained := h.update (f := patchRow envelope patch) (fun _ => rfl) hUpdated hFresh
        split at hOk
        · cases hOk
          exact hChained
        · cases hOk
          exact hChained.of_values fun id => valueOf_stamp
    | taskStatusChanged taskId fromStatus toStatus => exact h.update (fun _ => rfl) hOk hFresh
    | taskPriorityChanged taskId fromPriority toPriority => exact h.update (fun _ => rfl) hOk hFresh
    | taskCompleted taskId completedAt reason => exact h.update (fun _ => rfl) hOk hFresh
    | taskReopened taskId actor instant => exact h.update (fun _ => rfl) hOk hFresh
    | taskClosed taskId reason instant => exact h.update (fun _ => rfl) hOk hFresh
    | taskDeleted taskId =>
      cases hOk
      dsimp only [taskChanges]
      have hErased : ∀ id, valueOf (tasks.erase taskId) id = if id = taskId then none else valueOf tasks id := by
        intro id
        unfold valueOf
        by_cases hId : id = taskId
        · rw [if_pos hId, hId, find?_erase_self]
          rfl
        · rw [if_neg hId, find?_erase_of_ne _ hId]
      cases hFound : tasks.find? taskId with
      | none =>
        refine h.of_values fun id => ?_
        rw [hErased]
        split
        · rename_i hId
          rw [hId, valueOf, hFound]
          rfl
        · rfl
      | some task =>
        have hValue : some (taskValue task) = valueOf tasks taskId := by
          rw [valueOf, hFound]
          rfl
        have hDeleted : Chained (insertEntityVersion envelope versions ⟨taskId, some (taskValue task), none⟩)
            (tasks.erase taskId) := h.insert hValue hErased fun version hMem _ => hFresh version hMem
        exact hDeleted
    | taskSplitGenerated parent subtasks =>
      refine h.createAll (fun task hMem => ?_) hDistinct hOk fun version hMem _ => hFresh version hMem
      exact hNew task.id (mem_map_of_mem hMem)
    | taskUnblocked =>
      cases hOk
      exact h
    | taskDueElapsed =>
      cases hOk
      exact h
    | taskContested =>
      cases hOk
      exact h
  | _ =>
    rw [hPayload] at hOk
    cases hOk
    exact h

theorem recordVersions_cases (h : version ∈ recordVersions tasks env envelope versions) :
    version ∈ versions ∨ version.sourceEventId = envelope.id := by
  have hFold : ∀ (changes : List TaskChange) (versions : List TaskVersion),
      version ∈ changes.foldl (insertEntityVersion envelope) versions →
      version ∈ versions ∨ version.sourceEventId = envelope.id := by
    intro changes
    induction changes with
    | nil => exact fun _ hMem => .inl hMem
    | cons change rest ih =>
      intro versions hMem
      rcases ih _ hMem with hMem | hSource
      · exact (insert_cases hMem).imp_right And.left
      · exact .inr hSource
  exact hFold _ _ h

theorem recordVersions_again (h : ∃ version ∈ history versions id, version.sourceEventId = envelope.id) :
    history (recordVersions tasks env envelope versions) id = history versions id := by
  unfold recordVersions
  generalize changesOf tasks env envelope = changes
  induction changes generalizing versions with
  | nil => rfl
  | cons change rest ih =>
    have hSame : history (insertEntityVersion envelope versions change) id = history versions id := by
      unfold insertEntityVersion
      split
      · rfl
      · split
        · rfl
        · rename_i hNone
          have hOther : change.taskId ≠ id := by
            intro hId
            obtain ⟨version, hMem, hSource⟩ := h
            obtain ⟨hVersion, hTask⟩ := mem_filter.mp hMem
            have hAny : (versions.any fun version => version.taskId = change.taskId &&
                version.sourceEventId = envelope.id) = true :=
              any_eq_true.mpr ⟨version, hVersion, by simp [of_decide_eq_true hTask, hId, hSource]⟩
            exact hNone hAny
          rw [history, filter_append, filter_cons_of_neg (by simpa using hOther), filter_nil,
            append_nil]
          rfl
    rw [foldl_cons, ih (hSame.symm ▸ h), hSame]

end EntityVersion
end Daruma
