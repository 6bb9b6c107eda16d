import Daruma.Core.DocumentBatches
import Daruma.Core.Unblocking
import Daruma.Library.Replay

/-! Moving tasks at once and one after the other. A batch reads each task from the
storage before the first move, but the relations as the moves before left them. -/
namespace Daruma

open Stateful List KeyedTable
open Outcome (okOr_eq_ok)
open Replay (replay replay_cons_ok replay_append_ok)
open DocumentRepo (listLiveByTask updateDocument applyEvent)
open RelationEnforcement (notDone listDownstreamToUnblock listActiveBlockers othersDone)

namespace TaskCommands

theorem building_congr {σ ε α β : Type} {x y : Stateful σ ε α} {f g : α → Stateful σ ε β} {s : σ}
    (hFirst : x s = y s) (hNext : ∀ a s', y s = (.ok a, s') → f a s' = g a s') : (x >>= f) s = (y >>= g) s := by
  rw [bind_eq, bind_eq, hFirst]
  cases hIs : y s with
  | mk outcome s' =>
    cases outcome with
    | error e => rfl
    | ok a => exact hNext a s' hIs

theorem filter_insertOrReplace {Key Row : Type} [DecidableEq Key] {key : Row → Key} {table : KeyedTable Key Row key}
    {row : Row} {keep : Row → Bool} (hNew : keep row = false) (hOld : ∀ old ∈ table, key old = key row → keep old = false) :
    (table.insertOrReplace row).rows.filter keep = table.rows.filter keep := by
  change ((table.rows.filter fun other => decide (key other ≠ key row)) ++ [row]).filter keep = _
  rw [filter_append, filter_filter, filter_cons_of_neg (by simp [hNew]), filter_nil, append_nil]
  refine filter_congr fun old hMem => ?_
  by_cases hSame : key old = key row
  · simp [hOld old hMem hSame]
  · simp [hSame]

variable {db after last : Database} {env : Env} {actor : Actor} {now : Timestamp} {id : TaskId} {task : Task}
  {toStatus : Status} {relations relations' : Relations} {events : List Event} {event : Event} {moved : List TaskId}

/-- The tables of tasks and documents after an event. -/
def project (env : Env) (actor : Actor) (db : Database) (event : Event) : Result Database := do
  let envelope := EventEnvelope.new (env.fresh 0) env.now actor event
  let after ← Projections.tasks env envelope db
  pure (Projections.documents envelope after)

/-- One command for each id, each on what the command before has left. -/
def setStatusInTurn (env : Env) (actor : Actor) (status : Status) :
    Database → List TaskId → Building (List Event × Database)
  | db, [] => pure ([], db)
  | db, id :: rest => do
    let events ← setStatus db env actor id status none
    let after ← Stateful.lift (replay (project env actor) db events)
    let (later, last) ← setStatusInTurn env actor status after rest
    pure (events ++ later, last)

def setStatusAtOnce (env : Env) (actor : Actor) (status : Status) (db : Database) (ids : List TaskId) :
    Building (List Event × Database) := do
  let events ← bulkSetStatus db env actor ids status
  let last ← Stateful.lift (replay (project env actor) db events)
  pure (events, last)

theorem emitStatusTransitionEvents_congr (hRow : after.tasks.find? task.id = db.tasks.find? task.id)
    (hDocuments : listLiveByTask after task.id = listLiveByTask db task.id)
    (hSources : toStatus = .done → ∀ relation ∈ relations, relation.kind = .blocks →
      after.tasks.find? relation.source = db.tasks.find? relation.source) :
    emitStatusTransitionEvents after task toStatus actor now relations =
      emitStatusTransitionEvents db task toStatus actor now relations := by
  have hDirect : ensureDirectStatusWrite after task.id toStatus = ensureDirectStatusWrite db task.id toStatus := by
    unfold ensureDirectStatusWrite TaskRepo.pipelinePosition
    rw [hRow]
  have hClose : closeTaskDocuments after task.id toStatus now = closeTaskDocuments db task.id toStatus now := by
    unfold closeTaskDocuments
    rw [hDocuments]
  have hRest : statusTransitionEvents after task toStatus actor now relations =
      statusTransitionEvents db task toStatus actor now relations := by
    unfold statusTransitionEvents
    rw [hClose]
    by_cases hSame : task.status = toStatus
    · rw [if_pos hSame, if_pos hSame]
    rw [if_neg hSame, if_neg hSame]
    by_cases hDone : toStatus = .done
    · have hNotDone : ∀ relation ∈ relations, relation.kind = .blocks →
          notDone after.tasks relation.source = notDone db.tasks relation.source := by
        intro relation hMem hKind
        unfold notDone
        rw [hSources hDone relation hMem hKind]
      have hBlockers : listActiveBlockers relations after.tasks task.id =
          listActiveBlockers relations db.tasks task.id := by
        refine filter_congr fun source hMem => ?_
        obtain ⟨relation, hListed, rfl⟩ := mem_map.mp hMem
        obtain ⟨hIn, _, hKind⟩ := RelationRepo.mem_listBlockers.mp hListed
        exact hNotDone relation hIn hKind
      have hUnblock : listDownstreamToUnblock relations after.tasks task.id =
          listDownstreamToUnblock relations db.tasks task.id := by
        unfold listDownstreamToUnblock notDone
        rw [hRow]
        refine ite_congr rfl (fun _ => filter_congr fun target _ => ?_) fun _ => rfl
        refine Bool.eq_iff_iff.mpr ?_
        unfold othersDone
        rw [all_eq_true, all_eq_true]
        refine forall₂_congr fun relation hListed => ?_
        obtain ⟨hIn, _, hKind⟩ := RelationRepo.mem_listBlockers.mp hListed
        rw [hSources hDone relation hIn hKind]
      have hRelease : releaseDownstream after task.id now relations = releaseDownstream db task.id now relations := by
        unfold releaseDownstream
        rw [bind_eq, bind_eq]
        dsimp only [Stateful.get]
        rw [hUnblock]
      subst hDone
      refine building_congr rfl fun current _ hGet => ?_
      cases hGet
      exact building_congr (by rw [hBlockers]) fun _ _ hEnsured => by
        cases (lift_eq.mp hEnsured).2
        exact building_congr hRelease fun _ _ _ => rfl
    · refine building_congr rfl fun current _ hGet => ?_
      cases hGet
      have hEnsure : ∀ free e, Outcome.ensure (ε := CoreError) (decide (toStatus ≠ .done) || free) e = .ok () :=
        fun free e => by simp [Outcome.ensure, hDone]
      refine building_congr (by rw [hEnsure, hEnsure]) fun _ _ _ => ?_
      rw [if_neg hDone, if_neg hDone]
  unfold emitStatusTransitionEvents
  rw [hDirect]
  refine building_congr rfl fun _ _ hChecked => ?_
  cases (Stateful.lift_eq.mp hChecked).2
  exact hRest

/-- The event moves the task, closes a document of it, or is about an edge. -/
def Concerns (db : Database) (id : TaskId) : Event → Prop
  | .task (.taskStatusChanged other ..) | .task (.taskReopened other ..) | .task (.taskClosed other ..) => other = id
  | .document (.documentStatusChanged document ..) => (db.documents.find? document).map Document.taskId = some (some id)
  | .task (.taskUnblocked ..) | .relation _ => True
  | _ => False

/-- Other tasks and their live documents stay, and no document changes its task. -/
structure Spared (id : TaskId) (before after : Database) : Prop where
  tasks : ∀ other, other ≠ id → after.tasks.find? other = before.tasks.find? other
  documents : ∀ other, other ≠ id → listLiveByTask after other = listLiveByTask before other
  links : ∀ document, (after.documents.find? document).map Document.taskId =
    (before.documents.find? document).map Document.taskId

theorem updateTask_spares {tasks written : Tasks} {f : Task → Task} (h : TaskRepo.updateTask tasks id f = .ok written)
    (hId : ∀ old, (f old).id = old.id) {other : TaskId} (hOther : other ≠ id) :
    written.find? other = tasks.find? other := by
  unfold TaskRepo.updateTask at h
  split at h
  · cases h
    rfl
  · rename_i task hFound
    rw [TaskRepo.find?_upsertTask h, if_neg]
    rw [hId, key_of_find? hFound]
    exact Ne.symm hOther

theorem project_spares (hConcerns : Concerns db id event) (h : project env actor db event = .ok after) :
    Spared id db after := by
  obtain ⟨_, hTasks, h⟩ := Outcome.bind_eq_ok.mp h
  obtain ⟨written, hWritten, rfl⟩ := Projections.tasks_ok hTasks
  cases Outcome.pure_eq_ok.mp h
  unfold Concerns at hConcerns
  split at hConcerns
  · subst hConcerns
    refine ⟨fun other hOther => ?_, fun _ _ => rfl, fun _ => rfl⟩
    exact updateTask_spares (f := TaskRepo.statusRow _ _) hWritten (fun _ => rfl) hOther
  · subst hConcerns
    refine ⟨fun other hOther => ?_, fun _ _ => rfl, fun _ => rfl⟩
    exact updateTask_spares (f := TaskRepo.reopenedRow _ _) hWritten (fun _ => rfl) hOther
  · subst hConcerns
    refine ⟨fun other hOther => ?_, fun _ _ => rfl, fun _ => rfl⟩
    exact updateTask_spares (f := TaskRepo.closedRow _ _) hWritten (fun _ => rfl) hOther
  · rename_i document fromStatus toStatus instant _
    cases hWritten
    obtain ⟨row, hFound, hTask⟩ := Option.map_eq_some_iff.mp hConcerns
    have hDocuments : applyEvent db.documents (EventEnvelope.new (env.fresh 0) env.now actor
        (.document (.documentStatusChanged document fromStatus toStatus instant))) =
        db.documents.insertOrReplace (DocumentRepo.setStatus toStatus instant row) := by
      change updateDocument _ _ _ = _
      rw [updateDocument, hFound]
    refine ⟨fun _ _ => rfl, fun other hOther => ?_, fun target => ?_⟩
    · unfold listLiveByTask Projections.documents
      dsimp only
      rw [hDocuments, filter_insertOrReplace]
      · simp [DocumentRepo.setStatus, hTask, Ne.symm hOther]
      · intro old hMem hSame
        have hRow : old = row := eq_of_key_eq hMem (mem_of_find? hFound) hSame
        simp [hRow, hTask, Ne.symm hOther]
    · unfold Projections.documents
      dsimp only
      rw [hDocuments, find?_insertOrReplace]
      split
      · rename_i hIs
        change row.id = target at hIs
        rw [← hIs, key_of_find? hFound, hFound]
        rfl
      · rfl
  · cases hWritten
    exact ⟨fun _ _ => rfl, fun _ _ => rfl, fun _ => rfl⟩
  · cases hWritten
    exact ⟨fun _ _ => rfl, fun _ _ => rfl, fun _ => rfl⟩
  · exact hConcerns.elim

theorem Concerns.mono (h : Concerns db id event) (hSpared : Spared id db after) : Concerns after id event := by
  unfold Concerns at h
  split at h
  · exact h
  · exact h
  · exact h
  · exact (hSpared.links _).trans h
  · trivial
  · trivial
  · exact h.elim

theorem replay_spares (hConcerns : ∀ event ∈ events, Concerns db id event)
    (h : replay (project env actor) db events = .ok after) : Spared id db after := by
  induction events generalizing db with
  | nil =>
    cases h
    exact ⟨fun _ _ => rfl, fun _ _ => rfl, fun _ => rfl⟩
  | cons event rest ih =>
    obtain ⟨next, hNext, hRest⟩ := replay_cons_ok.mp h
    obtain ⟨hFirst, hLater⟩ := forall_mem_cons.mp hConcerns
    have hSpared := project_spares hFirst hNext
    have hEnd := ih (fun event hMem => (hLater event hMem).mono hSpared) hRest
    exact ⟨fun other hOther => (hEnd.tasks other hOther).trans (hSpared.tasks other hOther),
      fun other hOther => (hEnd.documents other hOther).trans (hSpared.documents other hOther),
      fun document => (hEnd.links document).trans (hSpared.links document)⟩

theorem emitStatusTransitionEvents_concerns :
    Stateful.Yields (emitStatusTransitionEvents db task toStatus actor now) (Everywhere (Concerns db task.id)) := by
  refine .andThen fun _ => statusTransitionEvents_rule (fun _ => .nil) (fun _ hRest => .cons rfl hRest) rfl rfl
    (fun _ => trivial) (fun _ _ _ => trivial) fun document hListed _ _ => ?_
  obtain ⟨hStored, hTask, _⟩ := DocumentRepo.mem_listLiveByTask.mp hListed
  change (db.documents.find? document.id).map Document.taskId = some (some task.id)
  rw [find?_of_mem hStored, Option.map_some, hTask]

theorem emitStatusTransitionEvents_edges (hMoves : task.status ≠ toStatus) :
    Ensures (emitStatusTransitionEvents db task toStatus actor now) relations fun _ relations' =>
      toStatus = .done → ∀ relation ∈ relations', relation.kind = .blocks → relation ∈ relations ∧ relation.source ≠ task.id := by
  refine .check fun _ => .ite (fun hSame => absurd hSame hMoves) fun _ => .read (.check fun _ => .ite (fun hDone => ?_) fun hOther => ?_)
  · exact .bind (releaseDownstream_ensures task.id) fun released after ⟨_, hRows, _⟩ =>
      .pure fun _ relation hMem hKind => (hRows relation hKind).mp hMem
  · exact .skip (.pure fun hDone => absurd hDone hOther)

/-- The storage after some moves, against the storage before them. -/
structure Ahead (toStatus : Status) (db after : Database) (moved : List TaskId) (relations : Relations) : Prop where
  tasks : ∀ id, id ∉ moved → after.tasks.find? id = db.tasks.find? id
  documents : ∀ id, id ∉ moved → listLiveByTask after id = listLiveByTask db id
  edges : toStatus = .done → ∀ relation ∈ relations, relation.kind = .blocks → relation.source ∉ moved

theorem Ahead.congr (h : Ahead toStatus db after moved relations) (hNew : task.id ∉ moved) :
    emitStatusTransitionEvents after task toStatus actor now relations =
      emitStatusTransitionEvents db task toStatus actor now relations :=
  emitStatusTransitionEvents_congr (h.tasks _ hNew) (h.documents _ hNew) fun hDone relation hMem hKind =>
    h.tasks _ (h.edges hDone relation hMem hKind)

theorem Ahead.step (h : Ahead toStatus db after moved relations)
    (hEmitted : emitStatusTransitionEvents after task toStatus actor now relations = (.ok events, relations'))
    (hNext : replay (project env actor) after events = .ok last) :
    ∃ moved', (∀ id ∈ moved', id = task.id ∨ id ∈ moved) ∧ Ahead toStatus db last moved' relations' := by
  by_cases hSame : task.status = toStatus
  · -- nothing is moved
    obtain ⟨_, _, hChecked, hRest⟩ := bind_eq_ok.mp hEmitted
    cases (lift_eq.mp hChecked).2
    rw [statusTransitionEvents, if_pos hSame] at hRest
    obtain ⟨hEvents, rfl⟩ := pure_eq.mp hRest
    cases hEvents
    cases hNext
    exact ⟨moved, fun _ => .inr, h⟩
  · have hEdges := emitStatusTransitionEvents_edges hSame _ _ hEmitted
    have hSpared := replay_spares (emitStatusTransitionEvents_concerns _ _ _ hEmitted) hNext
    refine ⟨task.id :: moved, fun _ => mem_cons.mp, fun id hId => ?_, fun id hId => ?_, fun hDone relation hMem hKind hIn => ?_⟩
    · exact (hSpared.tasks id (ne_of_not_mem_cons hId)).trans (h.tasks id (not_mem_of_not_mem_cons hId))
    · exact (hSpared.documents id (ne_of_not_mem_cons hId)).trans (h.documents id (not_mem_of_not_mem_cons hId))
    · obtain ⟨hOld, hOther⟩ := hEdges hDone relation hMem hKind
      exact (mem_cons.mp hIn).elim hOther (h.edges hDone relation hOld hKind)

theorem setStatus_ok {status : Status} : setStatus db env actor id status none relations = (.ok events, relations') ↔
    ∃ task, db.tasks.find? id = some task ∧
      emitStatusTransitionEvents db task status actor env.now relations = (.ok events, relations') := by
  constructor
  · intro h
    obtain ⟨task, hTask, h⟩ := lift_bind_ok.mp h
    obtain ⟨note, hNote, h⟩ := lift_bind_ok.mp h
    cases hNote
    obtain ⟨emitted, _, hEmitted, h⟩ := bind_eq_ok.mp h
    obtain ⟨hEvents, rfl⟩ := pure_eq.mp h
    cases hEvents
    exact ⟨task, okOr_eq_ok.mp hTask, hEmitted⟩
  · rintro ⟨task, hTask, hEmitted⟩
    exact lift_bind_ok.mpr ⟨task, okOr_eq_ok.mpr hTask, lift_bind_ok.mpr ⟨none, rfl, bind_eq_ok.mpr ⟨events, _, hEmitted, pure_eq.mpr ⟨rfl, rfl⟩⟩⟩⟩

theorem loadTasks_cons {label : String} {rest : List TaskId} {tasks : List Task} :
    loadTasks db label (id :: rest) = .ok tasks ↔ ∃ task later, db.tasks.find? id = some task ∧
      loadTasks db label rest = .ok later ∧ tasks = task :: later := by
  unfold loadTasks
  cases hFound : db.tasks.find? id with
  | none => simp [hFound]
  | some task =>
    rw [filter_cons_of_neg (by simp [hFound])]
    dsimp only
    split
    · rw [filterMap_cons_some hFound]
      constructor
      · exact fun h => ⟨task, _, rfl, rfl, (Except.ok.inj h).symm⟩
      · rintro ⟨_, _, ⟨⟩, ⟨⟩, h⟩
        exact h ▸ rfl
    · constructor
      · rintro ⟨⟩
      · rintro ⟨_, _, _, ⟨⟩, _⟩

theorem setStatusInTurn_iff {status : Status} {ids : List TaskId} (hAhead : Ahead status db after moved relations)
    (hNew : ∀ id ∈ ids, id ∉ moved) (hNodup : ids.Nodup) :
    setStatusInTurn env actor status after ids relations = (.ok (events, last), relations') ↔
      ∃ tasks, loadTasks db "bulk_set_status" ids = .ok tasks ∧
        collect (fun task => emitStatusTransitionEvents db task status actor env.now) tasks relations =
          (.ok events, relations') ∧ replay (project env actor) after events = .ok last := by
  induction ids generalizing after relations moved events with
  | nil =>
    constructor
    · intro h
      obtain ⟨hEnd, rfl⟩ := pure_eq.mp h
      cases hEnd
      exact ⟨[], rfl, collect_nil.mpr ⟨rfl, rfl⟩, rfl⟩
    · rintro ⟨tasks, hTasks, hCollected, hReplay⟩
      cases hTasks
      obtain ⟨rfl, rfl⟩ := collect_nil.mp hCollected
      cases hReplay
      rfl
  | cons id rest ih =>
    obtain ⟨hFirst, hRest⟩ := nodup_cons.mp hNodup
    have hFree := hNew id mem_cons_self
    -- the moves of the rest start from what the first has left
    have hLater : ∀ {task : Task} {moved' : List TaskId}, task.id = id → (∀ id ∈ moved', id = task.id ∨ id ∈ moved) →
        ∀ other ∈ rest, other ∉ moved' := by
      rintro task moved' rfl hMoved other hOther hIn
      rcases hMoved other hIn with rfl | hOld
      · exact hFirst hOther
      · exact hNew other (mem_cons_of_mem _ hOther) hOld
    constructor
    · intro h
      obtain ⟨first, middle, hSet, h⟩ := bind_eq_ok.mp h
      obtain ⟨task, hTask, hEmitted⟩ := setStatus_ok.mp hSet
      obtain ⟨next, hNext, h⟩ := lift_bind_ok.mp h
      obtain ⟨⟨later, _⟩, _, hTurns, h⟩ := bind_eq_ok.mp h
      obtain ⟨hEnd, rfl⟩ := pure_eq.mp h
      cases hEnd
      have hId : task.id = id := key_of_find? hTask
      obtain ⟨moved', hMoved, hStill⟩ := hAhead.step hEmitted hNext
      obtain ⟨tasks, hTasks, hCollected, hReplay⟩ := (ih hStill (hLater hId hMoved) hRest).mp hTurns
      rw [hAhead.congr (hId ▸ hFree)] at hEmitted
      exact ⟨task :: tasks, loadTasks_cons.mpr ⟨task, tasks, (hAhead.tasks id hFree).symm.trans hTask, hTasks, rfl⟩,
        collect_cons.mpr ⟨first, middle, later, hEmitted, hCollected, rfl⟩, replay_append_ok.mpr ⟨next, hNext, hReplay⟩⟩
    · rintro ⟨_, hAll, hEvents, hReplayed⟩
      obtain ⟨task, tasks, hTask, hTasks, rfl⟩ := loadTasks_cons.mp hAll
      obtain ⟨first, middle, later, hEmitted, hCollected, rfl⟩ := collect_cons.mp hEvents
      obtain ⟨next, hNext, hReplay⟩ := replay_append_ok.mp hReplayed
      have hId : task.id = id := key_of_find? hTask
      rw [← hAhead.congr (hId ▸ hFree)] at hEmitted
      obtain ⟨moved', hMoved, hStill⟩ := hAhead.step hEmitted hNext
      have hTurns := (ih hStill (hLater hId hMoved) hRest).mpr ⟨tasks, hTasks, hCollected, hReplay⟩
      have hSet := setStatus_ok.mpr ⟨task, (hAhead.tasks id hFree).trans hTask, hEmitted⟩
      exact bind_eq_ok.mpr ⟨first, middle, hSet, lift_bind_ok.mpr ⟨next, hNext, bind_eq_ok.mpr ⟨(later, last), _, hTurns, pure_eq.mpr ⟨rfl, rfl⟩⟩⟩⟩

/-- Moving the tasks of a list at once is moving its distinct tasks one after the
other, where the list is neither empty nor too long. -/
theorem bulk_equals_sequence (db : Database) (env : Env) (actor : Actor) (status : Status) (ids : List TaskId)
    (relations relations' : Relations) (result : List Event × Database) :
    setStatusAtOnce env actor status db ids relations = (.ok result, relations') ↔
      validateBulkCap (dedupeIds ids).length = .ok () ∧
        setStatusInTurn env actor status db (dedupeIds ids) relations = (.ok result, relations') := by
  have hAhead : Ahead status db db [] relations :=
    ⟨fun _ _ => rfl, fun _ _ => rfl, fun _ _ _ _ => not_mem_nil⟩
  rw [setStatusInTurn_iff hAhead (fun _ _ => not_mem_nil) (dedupeIds_nodup ids)]
  constructor
  · intro h
    obtain ⟨events, _, hBulk, h⟩ := bind_eq_ok.mp h
    obtain ⟨last, hLast, h⟩ := lift_bind_ok.mp h
    obtain ⟨hEnd, rfl⟩ := pure_eq.mp h
    cases hEnd
    obtain ⟨_, hCap, hBulk⟩ := lift_bind_ok.mp hBulk
    obtain ⟨tasks, hTasks, hCollected⟩ := lift_bind_ok.mp hBulk
    exact ⟨hCap, tasks, hTasks, hCollected, hLast⟩
  · rintro ⟨hCap, tasks, hTasks, hCollected, hLast⟩
    have hBulk : bulkSetStatus db env actor ids status relations = (.ok result.1, relations') :=
      lift_bind_ok.mpr ⟨(), hCap, lift_bind_ok.mpr ⟨tasks, hTasks, hCollected⟩⟩
    exact bind_eq_ok.mpr ⟨result.1, _, hBulk, lift_bind_ok.mpr ⟨result.2, hLast, pure_eq.mpr ⟨rfl, rfl⟩⟩⟩

/-- A list of no ids is refused, where no command of a sequence would be. -/
theorem no_ids_refused : (∃ e, setStatusAtOnce ⟨0, fun n => n⟩ .anyUser .done .empty [] .empty = (.error e, .empty)) ∧
    setStatusInTurn ⟨0, fun n => n⟩ .anyUser .done .empty (dedupeIds []) .empty = (.ok ([], .empty), .empty) := ⟨⟨_, rfl⟩, rfl⟩

end TaskCommands
end Daruma
