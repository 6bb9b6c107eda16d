import Daruma.Storage.KeyIndex
import Daruma.Storage.SnapshotRepo

/-! What a snapshot shows of a fold. Two folds that show the same stay alike under
every event, and the fold that starts from a snapshot is alike to the one that was
cut. -/
namespace Daruma

open List KeyedTable

open Replay (replay replay_cons_ok)

theorem perm_of_find? {Key Row : Type} {key : Row → Key} [DecidableEq Key] {table other : KeyedTable Key Row key}
    (h : ∀ k, table.find? k = other.find? k) : table.rows.Perm other.rows := by
  refine (perm_ext_iff_of_nodup table.nodup.of_map other.nodup.of_map).mpr fun row => ?_
  rw [mem_rows, mem_rows]
  constructor
  · intro hRow
    exact mem_of_find? ((h (key row)).symm.trans (find?_of_mem hRow))
  · intro hRow
    exact mem_of_find? ((h (key row)).trans (find?_of_mem hRow))

theorem find?_of_perm {Key Row : Type} {key : Row → Key} [DecidableEq Key] {table other : KeyedTable Key Row key}
    (h : table.rows.Perm other.rows) (k : Key) : table.find? k = other.find? k := by
  cases hFound : other.find? k with
  | none =>
    refine find?_eq_none_iff.mpr fun row hRow => ?_
    exact find?_eq_none_iff.mp hFound row (h.mem_iff.mp hRow)
  | some row =>
    obtain ⟨hRow, hKey⟩ := find?_eq_some_iff.mp hFound
    exact find?_eq_some_iff.mpr ⟨h.mem_iff.mpr hRow, hKey⟩

theorem Task.id_of_read {task other : Task} (h : task.read = other.read) : task.id = other.id := by
  have hSame := congrArg Task.id h
  exact hSame

theorem Task.externalKey_of_read {task other : Task} (h : task.read = other.read) :
    task.externalKey = other.externalKey := by
  have hSame := congrArg Task.externalKey h
  exact hSame

namespace TaskRepo

/-- The same is read of both tables. -/
def Alike (tasks other : Tasks) : Prop := ∀ id, (tasks.find? id).map Task.read = (other.find? id).map Task.read

theorem Alike.refl (tasks : Tasks) : Alike tasks tasks := fun _ => rfl

variable {tasks tasks' other : Tasks} {env : Env} {envelope : EventEnvelope}

theorem Alike.symm (h : Alike tasks other) : Alike other tasks := fun id => (h id).symm

theorem Alike.trans {last : Tasks} (h : Alike tasks other) (h' : Alike other last) : Alike tasks last :=
  fun id => (h id).trans (h' id)

theorem Alike.exists_mem (h : Alike tasks other) {task : Task} (hTask : task ∈ tasks) :
    ∃ row ∈ other, row.read = task.read := by
  have hFound := h task.id
  rw [find?_of_mem hTask, Option.map_some] at hFound
  obtain ⟨row, hRow, hRead⟩ := Option.map_eq_some_iff.mp hFound.symm
  exact ⟨row, mem_of_find? hRow, hRead⟩

theorem Alike.keyFree (h : Alike tasks other) {task task' : Task} (hTask : task.read = task'.read)
    (hFree : keyTaken tasks task = false) : keyTaken other task' = false := by
  have hId : task.id = task'.id := Task.id_of_read hTask
  have hKey : task.externalKey = task'.externalKey := Task.externalKey_of_read hTask
  refine keyTaken_eq_false.mpr fun hSome row hRow hSame => ?_
  obtain ⟨old, hOld, hRead⟩ := h.symm.exists_mem hRow
  have hOldId : old.id = row.id := Task.id_of_read hRead
  have hOldKey : old.externalKey = row.externalKey := Task.externalKey_of_read hRead
  rw [← hOldId, ← hId]
  exact keyTaken_eq_false.mp hFree (hKey ▸ hSome) old hOld (hOldKey.trans (hSame.trans hKey.symm))

theorem Alike.upsertTask (h : Alike tasks other) {task task' : Task} (hTask : task.read = task'.read)
    (hOk : TaskRepo.upsertTask tasks task = .ok tasks') :
    ∃ other', TaskRepo.upsertTask other task' = .ok other' ∧ Alike tasks' other' := by
  have hFree : keyTaken other task' = false := h.keyFree hTask (upsertTask_keyFree hOk)
  have hOther : ∃ other', TaskRepo.upsertTask other task' = .ok other' := by
    unfold TaskRepo.upsertTask
    rw [hFree]
    exact ⟨_, rfl⟩
  obtain ⟨other', hOther⟩ := hOther
  refine ⟨other', hOther, fun id => ?_⟩
  have hId : task.id = task'.id := Task.id_of_read hTask
  rw [find?_upsertTask hOk, find?_upsertTask hOther]
  by_cases hSame : task.id = id
  · rw [if_pos hSame, if_pos (hId ▸ hSame)]
    change some task.read = some task'.read
    rw [hTask]
  · rw [if_neg hSame, if_neg (hId ▸ hSame)]
    exact h id

theorem Alike.updateTask (h : Alike tasks other) {id : TaskId} {f : Task → Task}
    (hRead : ∀ task, (f task).read = f task.read) (hOk : TaskRepo.updateTask tasks id f = .ok tasks') :
    ∃ other', TaskRepo.updateTask other id f = .ok other' ∧ Alike tasks' other' := by
  have hSame := h id
  unfold TaskRepo.updateTask at hOk ⊢
  cases hFound : tasks.find? id with
  | none =>
    rw [hFound] at hOk hSame
    cases hOk
    rw [Option.map_eq_none_iff.mp hSame.symm]
    exact ⟨other, rfl, h⟩
  | some task =>
    rw [hFound] at hOk hSame
    obtain ⟨row, hRow, hRowRead⟩ := Option.map_eq_some_iff.mp hSame.symm
    rw [hRow]
    refine h.upsertTask ?_ hOk
    rw [hRead, hRead, hRowRead]

theorem Alike.insertSubtasks (h : Alike tasks other) {n : Nat} {subtasks : List NewTask}
    (hOk : TaskRepo.insertSubtasks env envelope tasks n subtasks = .ok tasks') :
    ∃ other', TaskRepo.insertSubtasks env envelope other n subtasks = .ok other' ∧ Alike tasks' other' := by
  induction subtasks generalizing tasks other n with
  | nil =>
    cases hOk
    exact ⟨other, rfl, h⟩
  | cons new rest ih =>
    unfold TaskRepo.insertSubtasks at hOk ⊢
    split at hOk
    · cases hOk
    · rename_i middle hFirst
      obtain ⟨middle', hFirst', hMiddle⟩ := h.upsertTask rfl hFirst
      rw [hFirst']
      exact ih hMiddle hOk

theorem Alike.stampPipelinePosition (h : Alike tasks other) {id : TaskId} {position : PipelinePosition} :
    Alike (TaskRepo.stampPipelinePosition tasks id position) (TaskRepo.stampPipelinePosition other id position) := by
  have hUnread : ∀ table : Tasks, Alike (TaskRepo.stampPipelinePosition table id position) table := by
    intro table taskId
    rw [find?_stampPipelinePosition]
    split
    · rw [Option.map_map]
      rfl
    · rfl
  exact (hUnread tasks).trans (h.trans (hUnread other).symm)

theorem Alike.applyTaskEvent (h : Alike tasks other) {event : TaskEvent}
    (hOk : TaskRepo.applyTaskEvent tasks env envelope event = .ok tasks') :
    ∃ other', TaskRepo.applyTaskEvent other env envelope event = .ok other' ∧ Alike tasks' other' := by
  cases event with
  | taskCreated new => exact h.upsertTask rfl hOk
  | taskUpdated taskId patch =>
    unfold TaskRepo.applyTaskEvent at hOk ⊢
    dsimp only at hOk ⊢
    split at hOk
    · cases hOk
    · rename_i patched hPatched
      have hRead : ∀ task, (patchRow envelope patch task).read = patchRow envelope patch task.read := fun _ => rfl
      obtain ⟨patched', hPatched', hAlike⟩ := h.updateTask hRead hPatched
      rw [hPatched']
      dsimp only
      split at hOk
      · cases hOk
        exact ⟨patched', rfl, hAlike⟩
      · cases hOk
        exact ⟨_, rfl, hAlike.stampPipelinePosition⟩
  | taskStatusChanged | taskPriorityChanged | taskCompleted | taskReopened | taskClosed =>
    exact h.updateTask (fun _ => rfl) hOk
  | taskDeleted taskId =>
    cases hOk
    refine ⟨_, rfl, fun id => ?_⟩
    by_cases hSame : id = taskId
    · rw [hSame, find?_erase_self, find?_erase_self]
    · rw [find?_erase_of_ne _ hSame, find?_erase_of_ne _ hSame]
      exact h id
  | taskSplitGenerated => exact h.insertSubtasks hOk
  | taskUnblocked | taskDueElapsed | taskContested =>
    cases hOk
    exact ⟨other, rfl, h⟩

theorem Alike.applyEvent (h : Alike tasks other) (hOk : TaskRepo.applyEvent tasks env envelope = .ok tasks') :
    ∃ other', TaskRepo.applyEvent other env envelope = .ok other' ∧ Alike tasks' other' := by
  unfold TaskRepo.applyEvent at hOk ⊢
  cases hPayload : envelope.payload with
  | task event =>
    rw [hPayload] at hOk
    exact h.applyTaskEvent hOk
  | _ =>
    rw [hPayload] at hOk
    cases hOk
    exact ⟨other, rfl, h⟩

theorem Alike.listAll_perm (h : Alike tasks other) : (listAll tasks).Perm (listAll other) := by
  have hNodup : ∀ table : Tasks, (listAll table).Nodup := by
    intro table
    have hIds : ((orderBy Task.createdAt table.rows).map Task.id).Nodup :=
      ((perm_insertionSort _ table.rows).map Task.id).nodup_iff.mpr table.nodup
    refine List.Nodup.of_map Task.id ?_
    rw [listAll, map_map]
    exact hIds
  have hMem : ∀ {first second : Tasks}, Alike first second → ∀ row ∈ listAll first, row ∈ listAll second := by
    intro first second hAlike row hRow
    obtain ⟨task, hTask, rfl⟩ := mem_map.mp hRow
    obtain ⟨same, hSame, hRead⟩ := hAlike.exists_mem (mem_rows.mp (mem_orderBy.mp hTask))
    exact mem_map.mpr ⟨same, mem_orderBy.mpr hSame, hRead⟩
  exact (perm_ext_iff_of_nodup (hNodup tasks) (hNodup other)).mpr
    fun row => ⟨hMem h row, hMem h.symm row⟩

theorem replay_upsertTask {rows : List Task} (hRead : ∀ row ∈ rows, row.read = row)
    (hIds : ((tasks.rows ++ rows).map Task.id).Nodup)
    (hKeys : ∀ first ∈ tasks.rows ++ rows, ∀ second ∈ tasks.rows ++ rows, first.externalKey.isSome = true →
      first.externalKey = second.externalKey → first.id = second.id) :
    ∃ restored, replay TaskRepo.upsertTask tasks rows = .ok restored ∧ restored.rows = tasks.rows ++ rows := by
  induction rows generalizing tasks with
  | nil => exact ⟨tasks, rfl, (append_nil _).symm⟩
  | cons row rest ih =>
    have hRow : row ∈ tasks.rows ++ row :: rest := mem_append_right _ mem_cons_self
    have hFresh : tasks.find? row.id = none := by
      refine find?_eq_none_iff.mpr fun old hOld hSame => ?_
      rw [map_append, nodup_append] at hIds
      exact hIds.2.2 _ (mem_map_of_mem hOld) _ (mem_map_of_mem mem_cons_self) hSame
    have hFree : keyTaken tasks row = false := keyTaken_eq_false.mpr fun hSome old hOld hSame =>
      hKeys old (mem_append_left _ hOld) row hRow (hSame ▸ hSome) hSame
    have hUpserted : TaskRepo.upsertTask tasks row = .ok (tasks.append row hFresh) := by
      unfold TaskRepo.upsertTask
      rw [hFree, hFresh, if_neg Bool.false_ne_true]
      change Except.ok (tasks.upsert row.read) = _
      rw [hRead row mem_cons_self, KeyedTable.upsert, dif_pos hFresh]
    have hRows : (tasks.append row hFresh).rows ++ rest = tasks.rows ++ row :: rest := by
      change (tasks.rows ++ [row]) ++ rest = _
      rw [append_assoc]
      rfl
    obtain ⟨restored, hRestored, hRestoredRows⟩ := ih (fun other hOther => hRead other (mem_cons_of_mem _ hOther))
      (hRows ▸ hIds) (hRows ▸ hKeys)
    exact ⟨restored, replay_cons_ok.mpr ⟨_, hUpserted, hRestored⟩, hRestoredRows.trans hRows⟩

theorem alike_of_rows (h : other.rows = listAll tasks) : Alike tasks other := by
  have hMem : ∀ row, row ∈ other ↔ ∃ task ∈ tasks, task.read = row := by
    intro row
    rw [← mem_rows, h, listAll, mem_map]
    simp only [mem_orderBy, mem_rows]
  intro id
  cases hFound : tasks.find? id with
  | none =>
    have hNone : other.find? id = none := find?_eq_none_iff.mpr fun row hRow => by
      obtain ⟨task, hTask, rfl⟩ := (hMem row).mp hRow
      exact find?_eq_none_iff.mp hFound task hTask
    rw [hNone]
  | some task =>
    obtain ⟨hTask, hId⟩ := find?_eq_some_iff.mp hFound
    have hRow : other.find? id = some task.read :=
      find?_eq_some_iff.mpr ⟨(hMem task.read).mpr ⟨task, hTask, rfl⟩, hId⟩
    rw [hRow]
    rfl

end TaskRepo
namespace ProjectRepo

variable {projects projects' other : Projects}

/-- Slugs are unique, and every row has its tenant. -/
structure Sound (projects : Projects) : Prop where
  slugs : ∀ first ∈ projects, ∀ second ∈ projects, first.slug = second.slug → first.id = second.id
  tenants : ∀ project ∈ projects, project.tenantId.isSome = true

theorem Sound.empty : Sound (.empty : Projects) :=
  ⟨fun _ h => absurd h (not_mem_empty _), fun _ h => absurd h (not_mem_empty _)⟩

theorem mem_upsertProject {project row : Project} : row ∈ upsertProject projects project ↔
      row = { project with tenantId := some (project.tenantId.getD defaultTenantId) } ∨
        (row ∈ projects ∧ row.slug ≠ project.slug ∧ row.id ≠ project.id) := by
  unfold upsertProject
  rw [KeyedTable.mem_insertOrReplace, KeyedTable.mem_filter, decide_eq_true_eq, and_assoc]

theorem Sound.upsertProject (h : Sound projects) (project : Project) :
    Sound (ProjectRepo.upsertProject projects project) := by
  refine ⟨fun first hFirst second hSecond hSame => ?_, fun row hRow => ?_⟩
  · rcases mem_upsertProject.mp hFirst with rfl | ⟨hFirst, hFirstSlug, _⟩
    · rcases mem_upsertProject.mp hSecond with rfl | ⟨_, hSecondSlug, _⟩
      · rfl
      · exact absurd hSame.symm hSecondSlug
    · rcases mem_upsertProject.mp hSecond with rfl | ⟨hSecond, _, _⟩
      · exact absurd hSame hFirstSlug
      · exact h.slugs first hFirst second hSecond hSame
  · rcases mem_upsertProject.mp hRow with rfl | ⟨hRow, _, _⟩
    · rfl
    · exact h.tenants row hRow

theorem Sound.applyEvent (h : Sound projects) (envelope : EventEnvelope) :
    Sound (ProjectRepo.applyEvent projects envelope) := by
  unfold ProjectRepo.applyEvent
  split
  · rename_i event _
    cases event with
    | projectCreated project => exact h.upsertProject project
    | projectUpdated projectId title description =>
      unfold applyProjectEvent
      dsimp only
      split
      · exact h
      · exact h.upsertProject _
    | projectDeleted projectId =>
      refine ⟨fun first hFirst second hSecond => ?_, fun row hRow => h.tenants row (mem_erase.mp hRow).1⟩
      exact h.slugs first (mem_erase.mp hFirst).1 second (mem_erase.mp hSecond).1
    | projectSettingsChanged => exact h
  · exact h

theorem upsertProject_congr (h : ∀ id, projects.find? id = other.find? id) (project : Project) (id : ProjectId) :
    (upsertProject projects project).find? id = (upsertProject other project).find? id := by
  unfold upsertProject
  rw [KeyedTable.find?_insertOrReplace, KeyedTable.find?_insertOrReplace, KeyedTable.find?_filter,
    KeyedTable.find?_filter, h id]

theorem applyEvent_congr (h : ∀ id, projects.find? id = other.find? id) (envelope : EventEnvelope) (id : ProjectId) :
    (applyEvent projects envelope).find? id = (applyEvent other envelope).find? id := by
  unfold applyEvent
  split
  · rename_i event _
    cases event with
    | projectCreated project => exact upsertProject_congr h project id
    | projectUpdated projectId title description =>
      unfold applyProjectEvent
      dsimp only
      rw [h projectId]
      split
      · exact h id
      · exact upsertProject_congr h _ id
    | projectDeleted projectId =>
      change (projects.erase projectId).find? id = (other.erase projectId).find? id
      rw [KeyedTable.erase, KeyedTable.erase, KeyedTable.find?_filter, KeyedTable.find?_filter, h id]
    | projectSettingsChanged => exact h id
  · exact h id

theorem foldl_upsertProject {rows : List Project} (hIds : ((projects.rows ++ rows).map Project.id).Nodup)
    (hSlugs : ∀ first ∈ projects.rows ++ rows, ∀ second ∈ projects.rows ++ rows, first.slug = second.slug →
      first.id = second.id)
    (hTenants : ∀ row ∈ rows, row.tenantId.isSome = true) :
    (rows.foldl upsertProject projects).rows = projects.rows ++ rows := by
  induction rows generalizing projects with
  | nil => exact (append_nil _).symm
  | cons row rest ih =>
    have hRow : row ∈ projects.rows ++ row :: rest := mem_append_right _ mem_cons_self
    have hFresh : ∀ old ∈ projects, old.id ≠ row.id := by
      intro old hOld hSame
      rw [map_append, nodup_append] at hIds
      exact hIds.2.2 _ (mem_map_of_mem hOld) _ (mem_map_of_mem mem_cons_self) hSame
    have hKept : projects.filter (fun other => decide (other.slug ≠ row.slug)) = projects :=
      filter_eq_self fun old hOld => decide_eq_true fun hSame =>
        hFresh old hOld (hSlugs old (mem_append_left _ hOld) row hRow hSame)
    have hStored : ({ row with tenantId := some (row.tenantId.getD defaultTenantId) } : Project) = row := by
      obtain ⟨tenant, hTenant⟩ := Option.isSome_iff_exists.mp (hTenants row mem_cons_self)
      obtain ⟨id, tenantId, slug, title, description, triageEnabled, createdAt, updatedAt⟩ := row
      cases hTenant
      rfl
    have hUpserted : (upsertProject projects row).rows = projects.rows ++ [row] := by
      unfold upsertProject
      rw [hKept, hStored]
      change (projects.erase row.id).rows ++ [row] = _
      rw [KeyedTable.erase, filter_eq_self fun old hOld => decide_eq_true (hFresh old hOld)]
    have hRows : (upsertProject projects row).rows ++ rest = projects.rows ++ row :: rest := by
      rw [hUpserted, append_assoc]
      rfl
    rw [foldl_cons, ih (hRows ▸ hIds) (hRows ▸ hSlugs) fun other hOther => hTenants other (mem_cons_of_mem _ hOther)]
    exact hRows

end ProjectRepo

namespace CommentRepo

variable {comments other : Comments}

theorem applyEvent_congr (h : ∀ id, comments.find? id = other.find? id) (envelope : EventEnvelope) (id : CommentId) :
    (applyEvent comments envelope).find? id = (applyEvent other envelope).find? id := by
  have hInsert : ∀ comment, (comments.insertOrReplace comment).find? id = (other.insertOrReplace comment).find? id := by
    intro comment
    rw [find?_insertOrReplace, find?_insertOrReplace, h id]
  unfold applyEvent
  split
  · exact hInsert _
  · rename_i commentId _ _ _ _
    rw [h commentId]
    split
    · exact h id
    · exact hInsert _
  · rename_i commentId _ deletedAt _
    have hModify : ∀ table : Comments,
        (table.modify commentId fun comment => { comment with deletedAt := some deletedAt }).find? id =
          if commentId = id then (table.find? id).map fun comment => { comment with deletedAt := some deletedAt }
          else table.find? id :=
      fun table => find?_modify table _ _ _ fun _ => rfl
    rw [hModify, hModify, h id]
  · exact h id

theorem foldl_insertOrReplace {rows : List Comment} (hIds : ((comments.rows ++ rows).map Comment.id).Nodup) :
    (rows.foldl KeyedTable.insertOrReplace comments).rows = comments.rows ++ rows := by
  induction rows generalizing comments with
  | nil => exact (append_nil _).symm
  | cons row rest ih =>
    have hFresh : ∀ old ∈ comments, old.id ≠ row.id := by
      intro old hOld hSame
      rw [map_append, nodup_append] at hIds
      exact hIds.2.2 _ (mem_map_of_mem hOld) _ (mem_map_of_mem mem_cons_self) hSame
    have hInserted : (comments.insertOrReplace row).rows = comments.rows ++ [row] := by
      change (comments.erase row.id).rows ++ [row] = _
      rw [KeyedTable.erase, filter_eq_self fun old hOld => decide_eq_true (hFresh old hOld)]
    have hRows : (comments.insertOrReplace row).rows ++ rest = comments.rows ++ row :: rest := by
      rw [hInserted, append_assoc]
      rfl
    rw [foldl_cons, ih (hRows ▸ hIds)]
    exact hRows

end CommentRepo

namespace ProjectionFold

structure Alike (fold other : ProjectionFold) : Prop where
  tasks : TaskRepo.Alike fold.tasks other.tasks
  projects : ∀ id, fold.projects.find? id = other.projects.find? id
  comments : ∀ id, fold.comments.find? id = other.comments.find? id

/-- The keys that the tables keep unique are. -/
structure Sound (fold : ProjectionFold) : Prop where
  tasks : TaskRepo.KeysDistinct fold.tasks
  projects : ProjectRepo.Sound fold.projects

theorem Alike.refl (fold : ProjectionFold) : Alike fold fold := ⟨.refl _, fun _ => rfl, fun _ => rfl⟩

theorem Sound.empty : Sound empty := ⟨.empty, .empty⟩

variable {mint : EventEnvelope → Env} {fold fold' other : ProjectionFold} {event : EventEnvelope}

theorem Alike.symm (h : Alike fold other) : Alike other fold :=
  ⟨h.tasks.symm, fun id => (h.projects id).symm, fun id => (h.comments id).symm⟩

theorem Alike.trans {last : ProjectionFold} (h : Alike fold other) (h' : Alike other last) : Alike fold last :=
  ⟨h.tasks.trans h'.tasks, fun id => (h.projects id).trans (h'.projects id),
    fun id => (h.comments id).trans (h'.comments id)⟩

theorem apply_ok (h : apply mint fold event = .ok fold') :
    ∃ tasks, TaskRepo.applyEvent fold.tasks (mint event) event = .ok tasks ∧
      fold' = ⟨tasks, ProjectRepo.applyEvent fold.projects event, CommentRepo.applyEvent fold.comments event⟩ := by
  unfold apply at h
  split at h
  · cases h
  · rename_i tasks hTasks
    cases h
    exact ⟨tasks, hTasks, rfl⟩

theorem Alike.apply (h : Alike fold other) (hOk : ProjectionFold.apply mint fold event = .ok fold') :
    ∃ other', ProjectionFold.apply mint other event = .ok other' ∧ Alike fold' other' := by
  obtain ⟨tasks, hTasks, rfl⟩ := apply_ok hOk
  obtain ⟨tasks', hTasks', hAlike⟩ := h.tasks.applyEvent hTasks
  refine ⟨⟨tasks', ProjectRepo.applyEvent other.projects event, CommentRepo.applyEvent other.comments event⟩, ?_, ?_⟩
  · unfold ProjectionFold.apply
    rw [hTasks']
  · exact ⟨hAlike, ProjectRepo.applyEvent_congr h.projects event, CommentRepo.applyEvent_congr h.comments event⟩

theorem Sound.apply (h : Sound fold) (hOk : ProjectionFold.apply mint fold event = .ok fold') : Sound fold' := by
  obtain ⟨tasks, hTasks, rfl⟩ := apply_ok hOk
  exact ⟨h.tasks.applyEvent hTasks, h.projects.applyEvent event⟩

theorem apply_telemetry (h : event.payload.class = .telemetry) : ProjectionFold.apply mint fold event = .ok fold := by
  cases hPayload : event.payload with
  | audit audit =>
    unfold ProjectionFold.apply TaskRepo.applyEvent ProjectRepo.applyEvent CommentRepo.applyEvent
    rw [hPayload]
  | _ =>
    rw [hPayload] at h
    cases h

/-- A payload of the same rows. The query lists rows of one creation instant in an
order that it leaves open. -/
structure Shows (payload : ProjectionSnapshot) (fold : ProjectionFold) : Prop where
  tasks : payload.tasks.Perm fold.state.tasks
  projects : payload.projects.Perm fold.state.projects
  comments : payload.comments.Perm fold.state.comments

theorem Alike.shows (h : Alike fold other) : Shows fold.state other := by
  refine ⟨h.tasks.listAll_perm, ?_, ?_⟩
  · exact (perm_insertionSort _ _).trans ((perm_of_find? h.projects).trans (perm_insertionSort _ _).symm)
  · exact (perm_insertionSort _ _).trans ((perm_of_find? h.comments).trans (perm_insertionSort _ _).symm)

theorem Sound.of_alike (h : Sound fold) (hAlike : Alike fold other) : Sound other := by
  have hProject : ∀ project ∈ other.projects, project ∈ fold.projects := fun project hProject =>
    mem_of_find? ((hAlike.projects project.id).trans (find?_of_mem hProject))
  refine ⟨fun first hFirst second hSecond hSome hSame => ?_, ⟨fun first hFirst second hSecond => ?_,
    fun project hMem => h.projects.tenants project (hProject project hMem)⟩⟩
  · obtain ⟨task, hTask, hRead⟩ := hAlike.tasks.symm.exists_mem hFirst
    obtain ⟨task', hTask', hRead'⟩ := hAlike.tasks.symm.exists_mem hSecond
    rw [← Task.id_of_read hRead, ← Task.id_of_read hRead']
    rw [← Task.externalKey_of_read hRead] at hSome hSame
    exact h.tasks task hTask task' hTask' hSome (hSame.trans (Task.externalKey_of_read hRead').symm)
  · exact h.projects.slugs first (hProject first hFirst) second (hProject second hSecond)

theorem new_state (hSound : Sound fold) : ∃ restored, new (some fold.state) = .ok restored ∧ Alike fold restored := by
  have hTaskIds : ((TaskRepo.listAll fold.tasks).map Task.id).Nodup := by
    rw [TaskRepo.listAll, map_map]
    exact ((perm_insertionSort _ fold.tasks.rows).map Task.id).nodup_iff.mpr fold.tasks.nodup
  have hTaskKeys : ∀ first ∈ TaskRepo.listAll fold.tasks, ∀ second ∈ TaskRepo.listAll fold.tasks,
      first.externalKey.isSome = true → first.externalKey = second.externalKey → first.id = second.id := by
    intro first hFirst second hSecond hSome hSame
    obtain ⟨task, hTask, rfl⟩ := mem_map.mp hFirst
    obtain ⟨task', hTask', rfl⟩ := mem_map.mp hSecond
    exact hSound.tasks task (mem_orderBy.mp hTask) task' (mem_orderBy.mp hTask') hSome hSame
  have hTasks : ∃ tasks, replay TaskRepo.upsertTask .empty (TaskRepo.listAll fold.tasks) = .ok tasks ∧
      tasks.rows = TaskRepo.listAll fold.tasks := by
    refine TaskRepo.replay_upsertTask (fun row hRow => ?_) hTaskIds hTaskKeys
    obtain ⟨task, _, rfl⟩ := mem_map.mp hRow
    rfl
  obtain ⟨tasks, hTasks, hRows⟩ := hTasks
  have hProjects : (fold.state.projects.foldl ProjectRepo.upsertProject .empty).rows = fold.state.projects := by
    refine ProjectRepo.foldl_upsertProject ?_ ?_ ?_
    · exact ((perm_insertionSort _ fold.projects.rows).map Project.id).nodup_iff.mpr fold.projects.nodup
    · exact fun first hFirst second hSecond =>
        hSound.projects.slugs first (mem_orderBy.mp hFirst) second (mem_orderBy.mp hSecond)
    · exact fun row hRow => hSound.projects.tenants row (mem_orderBy.mp hRow)
  have hComments : (fold.state.comments.foldl KeyedTable.insertOrReplace .empty : CommentRepo.Comments).rows =
      fold.state.comments :=
    CommentRepo.foldl_insertOrReplace
      (((perm_insertionSort _ fold.comments.rows).map Comment.id).nodup_iff.mpr fold.comments.nodup)
  refine ⟨⟨tasks, fold.state.projects.foldl ProjectRepo.upsertProject .empty,
    fold.state.comments.foldl KeyedTable.insertOrReplace .empty⟩, ?_, TaskRepo.alike_of_rows hRows, ?_, ?_⟩
  · unfold new
    dsimp only [state]
    rw [hTasks]
  · exact find?_of_perm (hProjects.symm ▸ (perm_insertionSort _ fold.projects.rows).symm)
  · exact find?_of_perm (hComments.symm ▸ (perm_insertionSort _ fold.comments.rows).symm)

end ProjectionFold
end Daruma
