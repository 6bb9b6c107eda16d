import Daruma.Core.Relabelling
import Daruma.Core.LifecycleSteps

/-! The tasks that a command sets free. A task is held while an edge blocks it from
a task that is not done; the builders free a task exactly when they take the last
such edge away. -/
namespace Daruma

open List
open RelationRepo (mem_listBlocksTargets delete listByTask insert_ok)
open Stateful (collect collect_nil collect_cons)

open Stateful (Ensures)
open Outcome (okOr_eq_ok)
open Transition (Trace)

def Event.unblockedTask : Event → Option TaskId
  | .task (.taskUnblocked taskId ..) => some taskId
  | _ => none

def unblockedIn (events : List Event) : List TaskId := events.filterMap Event.unblockedTask

/-- The event neither unblocks a task nor moves one. -/
def Event.isIdle : Event → Bool
  | .task (.taskUnblocked ..) | .task (.taskStatusChanged ..) => false
  | _ => true

abbrev Idle (events : List Event) : Prop := Everywhere (fun event => event.isIdle = true) events

section

variable {first second events : List Event}

theorem unblockedIn_append : unblockedIn (first ++ second) = unblockedIn first ++ unblockedIn second :=
  filterMap_append

theorem Idle.unblockedIn_eq (h : Idle events) : unblockedIn events = [] := by
  refine filterMap_eq_nil_iff.mpr fun event hMem => ?_
  have hIdle : event.isIdle = true := h event hMem
  unfold Event.isIdle at hIdle
  unfold Event.unblockedTask
  split at hIdle
  · cases hIdle
  · cases hIdle
  · rename_i hNotUnblocked _
    split
    · exact absurd rfl (hNotUnblocked _ _ _)
    · rfl

theorem Idle.not_moved (h : Idle events) {id : TaskId} {fromStatus toStatus : Status} :
    .task (.taskStatusChanged id fromStatus toStatus) ∉ events :=
  fun hMem => Bool.noConfusion (h _ hMem)

end

def Held (relations : Relations) (db : Database) (id : TaskId) : Prop :=
  ∃ edge ∈ relations, edge.target = id ∧ edge.kind = .blocks ∧ db.statusOf edge.source ≠ some .done

def FewerBlocks (before after : Relations) : Prop := ∀ edge ∈ after, edge.kind = .blocks → edge ∈ before

theorem Held.of_fewer {before after : Relations} {db : Database} {id : TaskId} (h : Held after db id)
    (hFewer : FewerBlocks before after) : Held before db id := by
  obtain ⟨edge, hEdge, hTarget, hKind, hOpen⟩ := h
  exact ⟨edge, hFewer edge hEdge hKind, hTarget, hKind, hOpen⟩

/-- What a batch that moves tasks to one status reports as unblocked, and what it
makes of the relations: each task that stops being held is reported, once, and the
edges out of a task that is done block nothing. -/
structure Unblocks (db : Database) (toStatus : Status) (before : Relations) (events : List Event)
    (after : Relations) : Prop where
  nodup : (unblockedIn events).Nodup
  mem_iff : ∀ id, id ∈ unblockedIn events ↔ Held before db id ∧ ¬Held after db id
  fewer : FewerBlocks before after
  moves : ∀ id fromStatus status, .task (.taskStatusChanged id fromStatus status) ∈ events →
    status = toStatus ∧ (status = .done → ∀ edge ∈ after, edge.kind = .blocks → edge.source ≠ id)
  quiet : toStatus ≠ .done → unblockedIn events = []

namespace Unblocks

variable {db : Database} {toStatus : Status} {before middle after : Relations} {first second events : List Event}

theorem of_idle (h : Idle events) : Unblocks db toStatus before events before := by
  refine ⟨?_, fun id => ?_, fun _ hEdge _ => hEdge, fun _ _ _ hMem => absurd hMem h.not_moved, fun _ => h.unblockedIn_eq⟩
  · rw [h.unblockedIn_eq]
    exact nodup_nil
  · rw [h.unblockedIn_eq]
    exact iff_of_false not_mem_nil fun ⟨hHeld, hFree⟩ => hFree hHeld

theorem append (h : Unblocks db toStatus before first middle) (h' : Unblocks db toStatus middle second after) :
    Unblocks db toStatus before (first ++ second) after := by
  have hFewer : FewerBlocks before after := fun edge hEdge hKind =>
    h.fewer edge (h'.fewer edge hEdge hKind) hKind
  refine ⟨?_, fun id => ?_, hFewer, fun id fromStatus status hMem => ?_, fun hOther => ?_⟩
  · rw [unblockedIn_append]
    refine h.nodup.append h'.nodup fun id hFirst hSecond => ?_
    exact ((h.mem_iff id).mp hFirst).2 ((h'.mem_iff id).mp hSecond).1
  · rw [unblockedIn_append, mem_append, h.mem_iff, h'.mem_iff]
    constructor
    · rintro (⟨hHeld, hFree⟩ | ⟨hHeld, hFree⟩)
      · exact ⟨hHeld, fun hAfter => hFree (hAfter.of_fewer h'.fewer)⟩
      · exact ⟨hHeld.of_fewer h.fewer, hFree⟩
    · rintro ⟨hHeld, hFree⟩
      by_cases hMiddle : Held middle db id
      · exact .inr ⟨hMiddle, hFree⟩
      · exact .inl ⟨hHeld, hMiddle⟩
  · rcases mem_append.mp hMem with hMem | hMem
    · obtain ⟨hStatus, hReleased⟩ := h.moves id fromStatus status hMem
      exact ⟨hStatus, fun hDone edge hEdge hKind => hReleased hDone edge (h'.fewer edge hEdge hKind) hKind⟩
    · exact h'.moves id fromStatus status hMem
  · rw [unblockedIn_append, h.quiet hOther, h'.quiet hOther]
    rfl

end Unblocks

namespace RelationEnforcement

variable {relations after : Relations} {db : Database} {id other : TaskId} {status : Status}

theorem done_iff {id : TaskId} : (match db.tasks.find? id with
    | some dep => decide (dep.status = .done)
    | none => false) = true ↔ db.statusOf id = some .done := by
  unfold Database.statusOf
  cases db.tasks.find? id with
  | none => simp
  | some dep => simp

theorem othersDone_iff : othersDone relations db.tasks id other = true ↔ ∀ edge ∈ relations, edge.target = other →
      edge.kind = .blocks → edge.source = id ∨ db.statusOf edge.source = some .done := by
  simp only [othersDone, all_eq_true, RelationRepo.mem_listBlockers, Bool.or_eq_true, decide_eq_true_eq]
  exact ⟨fun h edge hMem hTarget hKind => (h edge ⟨hMem, hTarget, hKind⟩).imp_right done_iff.mp,
    fun h edge hEdge => (h edge hEdge.1 hEdge.2.1 hEdge.2.2).imp_right done_iff.mpr⟩

theorem notDone_iff (hStatus : db.statusOf id = some status) : notDone db.tasks id = true ↔ status ≠ .done := by
  obtain ⟨task, hFound, rfl⟩ := Option.map_eq_some_iff.mp hStatus
  rw [notDone, hFound]
  exact decide_eq_true_iff

/-- What a stored blocker holds alone is what stops being held when its blocking
edges go. -/
theorem mem_listDownstreamToUnblock (hStatus : db.statusOf id = some status)
    (hAfter : ∀ edge, edge.target = other → edge.kind = .blocks →
      (edge ∈ after ↔ edge ∈ relations ∧ edge.source ≠ id)) :
    other ∈ listDownstreamToUnblock relations db.tasks id ↔ Held relations db other ∧ ¬Held after db other := by
  unfold listDownstreamToUnblock
  split
  · rename_i hNotDone
    have hOpen : db.statusOf id ≠ some .done := fun hDone =>
      (notDone_iff hStatus).mp hNotDone (Option.some.inj (hStatus.symm.trans hDone))
    rw [mem_filter, othersDone_iff, mem_map]
    constructor
    · rintro ⟨⟨edge, hEdge, hTarget⟩, hOthers⟩
      obtain ⟨hMem, hSource, hKind⟩ := mem_listBlocksTargets.mp hEdge
      refine ⟨⟨edge, hMem, hTarget, hKind, hSource.symm ▸ hOpen⟩, ?_⟩
      rintro ⟨left, hLeft, hLeftTarget, hLeftKind, hHolds⟩
      obtain ⟨hOld, hLeftSource⟩ := (hAfter left hLeftTarget hLeftKind).mp hLeft
      exact (hOthers left hOld hLeftTarget hLeftKind).elim hLeftSource hHolds
    · rintro ⟨⟨edge, hMem, hTarget, hKind, hHolds⟩, hFree⟩
      -- an edge that holds the task and does not do so any more is one out of the freed blocker
      have hKept : ∀ left ∈ relations, left.target = other → left.kind = .blocks →
          left.source = id ∨ db.statusOf left.source = some .done := by
        intro left hLeft hLeftTarget hLeftKind
        by_contra hNeither
        rw [not_or] at hNeither
        exact hFree ⟨left, (hAfter left hLeftTarget hLeftKind).mpr ⟨hLeft, hNeither.1⟩, hLeftTarget, hLeftKind,
          hNeither.2⟩
      have hSource : edge.source = id := (hKept edge hMem hTarget hKind).resolve_right hHolds
      exact ⟨⟨edge, mem_listBlocksTargets.mpr ⟨hMem, hSource, hKind⟩, hTarget⟩, hKept⟩
  · rename_i hDone
    have hIsDone : db.statusOf id = some .done := by
      rw [notDone_iff hStatus, not_not] at hDone
      rw [hStatus, hDone]
    refine iff_of_false not_mem_nil fun ⟨⟨edge, hMem, hTarget, hKind, hHolds⟩, hFree⟩ => hFree ?_
    refine ⟨edge, (hAfter edge hTarget hKind).mpr ⟨hMem, fun hSource => hHolds ?_⟩, hTarget, hKind, hHolds⟩
    rw [hSource, hIsDone]

theorem nodup_listDownstreamToUnblock (hUnique : UniqueEdges relations) (tasks : Tasks) (id : TaskId) :
    (listDownstreamToUnblock relations tasks id).Nodup := by
  unfold listDownstreamToUnblock
  split
  · refine List.Nodup.filter _ (List.Nodup.map_on (fun a hA b hB hSame => ?_) ?_)
    · obtain ⟨hMemA, hSourceA, hKindA⟩ := mem_listBlocksTargets.mp hA
      obtain ⟨hMemB, hSourceB, hKindB⟩ := mem_listBlocksTargets.mp hB
      exact hUnique a hMemA b hMemB (hSourceA.trans hSourceB.symm) hSame (hKindA.trans hKindB.symm)
    · exact (perm_insertionSort _ _).nodup_iff.mpr (relations.nodup.of_map.filter _)
  · exact nodup_nil

end RelationEnforcement

open RelationEnforcement (listDownstreamToUnblock mem_listDownstreamToUnblock nodup_listDownstreamToUnblock)

theorem unblockedIn_downstream {tasks : List TaskId} {id : TaskId} {now : Timestamp} :
    unblockedIn (tasks.map fun taskId => Event.task (.taskUnblocked taskId id now)) = tasks := by
  rw [unblockedIn, filterMap_map]
  exact filterMap_some

namespace TaskCommands

variable {config : Config} {db : Database} {env : Env} {actor : Actor} {now : Timestamp} {relations : Relations}

theorem relabel_ensures (edges : List Relation) :
    Ensures (collect (relabelBlocks now) edges) relations fun events after => Idle events ∧
      ∀ edge, edge.kind = .blocks → (edge ∈ after ↔ edge ∈ relations ∧ ∀ picked ∈ edges, edge.id ≠ picked.id) := by
  intro events after h
  induction edges generalizing relations events with
  | nil =>
    obtain ⟨rfl, rfl⟩ := collect_nil.mp h
    exact ⟨.nil, fun edge _ => (and_iff_left fun _ hMem => absurd hMem not_mem_nil).symm⟩
  | cons first rest ih =>
    obtain ⟨relabelled, middle, later, hFirst, hLater, rfl⟩ := collect_cons.mp h
    have hUpdate := relabelBlocks_ok hFirst
    rw [relabelBlocks_eq hUpdate] at hFirst
    cases hFirst
    obtain ⟨hIdle, hRows⟩ := ih later hLater
    refine ⟨.append (.cons rfl .nil) hIdle, fun edge hKind => ?_⟩
    rw [hRows edge hKind, forall_mem_cons, ← and_assoc, RelationRepo.mem_updateKind hUpdate]
    refine and_congr_left' ⟨?_, .inr⟩
    rintro (⟨old, _, _, rfl⟩ | hKept)
    · cases hKind
    · exact hKept

theorem releaseDownstream_ensures (id : TaskId) : Ensures (releaseDownstream db id now) relations fun events after =>
      unblockedIn events = listDownstreamToUnblock relations db.tasks id ∧
      (∀ edge, edge.kind = .blocks → (edge ∈ after ↔ edge ∈ relations ∧ edge.source ≠ id)) ∧
      ∀ moved fromStatus toStatus, .task (.taskStatusChanged moved fromStatus toStatus) ∉ events := by
  refine .read (.bind (relabel_ensures _) fun relabelled after ⟨hIdle, hRows⟩ => .pure ⟨?_, ?_, ?_⟩)
  · rw [unblockedIn_append, hIdle.unblockedIn_eq, append_nil, unblockedIn_downstream]
  · intro edge hKind
    rw [hRows edge hKind]
    refine and_congr_right fun hMem => ⟨fun hOther hSource => ?_, fun hSource picked hPicked hSame => ?_⟩
    · exact hOther edge (mem_listBlocksTargets.mpr ⟨hMem, hSource, hKind⟩) rfl
    · obtain ⟨hIn, hPickedSource, _⟩ := mem_listBlocksTargets.mp hPicked
      exact hSource (KeyedTable.eq_of_key_eq hMem hIn hSame ▸ hPickedSource)
  · intro moved fromStatus toStatus hMem
    rcases mem_append.mp hMem with hIn | hIn
    · obtain ⟨_, _, hIs⟩ := mem_map.mp hIn
      cases hIs
    · exact hIdle.not_moved hIn

variable {id : TaskId} {toStatus status : Status}

theorem closureEvents_idle {fromStatus : Status} :
    Idle (closureEvents id fromStatus toStatus actor now) := closureEvents_rule rfl rfl

theorem closeTaskDocuments_idle (id : TaskId) (toStatus : Status) : Idle (closeTaskDocuments db id toStatus now) :=
  closeTaskDocuments_rule fun _ _ _ _ => rfl

variable {task : Task} {position : PipelinePosition}

variable (hUnique : UniqueEdges relations)

include hUnique in
theorem unblocks_of_done {closure released documents : List Event} {after : Relations} (hFound : db.tasks.find? task.id = some task)
    (hClosure : Idle closure) (hDocuments : Idle documents)
    (hReleased : unblockedIn released = listDownstreamToUnblock relations db.tasks task.id ∧
      (∀ edge, edge.kind = .blocks → (edge ∈ after ↔ edge ∈ relations ∧ edge.source ≠ task.id)) ∧
      ∀ moved fromStatus toStatus, .task (.taskStatusChanged moved fromStatus toStatus) ∉ released) :
    Unblocks db .done relations ([.task (.taskStatusChanged task.id task.status .done)] ++ closure ++ released ++
      documents) after := by
  obtain ⟨hUnblocked, hRows, hStill⟩ := hReleased
  have hStatus : db.statusOf task.id = some task.status := by
    rw [Database.statusOf, hFound]
    rfl
  have hAll : unblockedIn ([.task (.taskStatusChanged task.id task.status .done)] ++ closure ++ released ++
      documents) = listDownstreamToUnblock relations db.tasks task.id := by
    rw [unblockedIn_append, unblockedIn_append, unblockedIn_append, hClosure.unblockedIn_eq,
      hDocuments.unblockedIn_eq, hUnblocked, append_nil]
    rfl
  refine ⟨?_, fun id => ?_, fun edge hEdge hKind => ((hRows edge hKind).mp hEdge).1,
    fun id fromStatus status hMem => ?_, fun hOther => absurd rfl hOther⟩
  · rw [hAll]
    exact nodup_listDownstreamToUnblock hUnique db.tasks task.id
  · rw [hAll]
    exact mem_listDownstreamToUnblock hStatus fun edge _ hKind => hRows edge hKind
  · rcases mem_append.mp hMem with hMem | hMem
    · rcases mem_append.mp hMem with hMem | hMem
      · rcases mem_append.mp hMem with hMem | hMem
        · cases mem_singleton.mp hMem
          exact ⟨rfl, fun _ edge hEdge hKind => ((hRows edge hKind).mp hEdge).2⟩
        · exact absurd hMem hClosure.not_moved
      · exact absurd hMem (hStill _ _ _)
    · exact absurd hMem hDocuments.not_moved

include hUnique in
theorem statusTransitionEvents_ensures (hFound : db.tasks.find? task.id = some task) :
    Ensures (statusTransitionEvents db task toStatus actor now) relations (Unblocks db toStatus relations) := by
  refine .ite (fun _ => .pure (.of_idle .nil)) fun _ => .read (.check fun _ => .ite (fun hDone => ?_) fun hOther => ?_)
  · subst hDone
    exact .bind (releaseDownstream_ensures task.id) fun released after hReleased =>
      .pure (unblocks_of_done hUnique hFound closureEvents_idle (closeTaskDocuments_idle task.id .done) hReleased)
  · refine .skip (.pure ?_)
    have hMoved : Unblocks db toStatus relations [.task (.taskStatusChanged task.id task.status toStatus)]
        relations := by
      refine ⟨nodup_nil, fun id => ?_, fun _ hEdge _ => hEdge, fun id fromStatus status hMem => ?_, fun _ => rfl⟩
      · exact iff_of_false not_mem_nil fun ⟨hHeld, hFree⟩ => hFree hHeld
      · cases mem_singleton.mp hMem
        exact ⟨rfl, fun hDone => absurd hDone hOther⟩
    exact ((hMoved.append (.of_idle closureEvents_idle)).append (.of_idle .nil)).append
      (.of_idle (closeTaskDocuments_idle task.id toStatus))

include hUnique in
theorem completeTask_ensures {note : Option CompletionNote} :
    Ensures (completeTask db env actor id note) relations (Unblocks db .done relations) := by
  refine .compute requireTask_row fun task ⟨hId, hFound⟩ => ?_
  subst hId
  exact .check fun _ => .check fun _ => .read (.check fun _ => .bind (releaseDownstream_ensures task.id)
    fun released after hReleased => .pure (unblocks_of_done hUnique hFound (.cons rfl (.cons rfl .nil))
      (closeTaskDocuments_idle task.id .done) hReleased))

include hUnique in
theorem emitStatusTransitionEvents_ensures (hFound : db.tasks.find? task.id = some task) :
    Ensures (emitStatusTransitionEvents db task toStatus actor now) relations (Unblocks db toStatus relations) :=
  .check fun _ => statusTransitionEvents_ensures hUnique hFound

include hUnique in
theorem setStatus_ensures {comment : Option TransitionComment} :
    Ensures (setStatus db env actor id status comment) relations (Unblocks db status relations) := by
  refine .compute requireTask_row fun task ⟨hId, hFound⟩ => .check fun comment =>
    .bind (emitStatusTransitionEvents_ensures hUnique hFound) fun events after hEvents => ?_
  cases comment with
  | none => exact .pure hEvents
  | some body =>
    exact .ite (fun _ => .pure hEvents) fun _ => .pure (hEvents.append (.of_idle (.cons rfl (.cons rfl .nil))))

include hUnique in
theorem bulk_ensures {tasks : List Task} (hRows : ∀ task ∈ tasks, db.tasks.find? task.id = some task) :
    Ensures (collect (fun task => emitStatusTransitionEvents db task toStatus actor now) tasks) relations
      (Unblocks db toStatus relations) := by
  intro events after h
  induction tasks generalizing relations events with
  | nil =>
    obtain ⟨rfl, rfl⟩ := collect_nil.mp h
    exact .of_idle .nil
  | cons task rest ih =>
    obtain ⟨hFirst, hRest⟩ := forall_mem_cons.mp hRows
    obtain ⟨first, middle, later, hRun, hLater, rfl⟩ := collect_cons.mp h
    have hTrace : Trace RelationWrite relations middle := by
      have hMoves : Trace RelationWrite relations
          (emitStatusTransitionEvents db task toStatus actor now relations).2 :=
        emitStatusTransitionEvents_relations task toStatus relations
      rwa [hRun] at hMoves
    exact (emitStatusTransitionEvents_ensures hUnique hFirst first middle hRun).append
      (ih (uniqueEdges_step.trace hTrace hUnique) hRest later hLater)

include hUnique in
theorem bulkSetStatus_ensures {ids : List TaskId} :
    Ensures (bulkSetStatus db env actor ids status) relations (Unblocks db status relations) :=
  .check fun _ => .compute (loadTasks_rows (dedupeIds_nodup ids)) fun _ hTasks => bulk_ensures hUnique hTasks.1

include hUnique in
theorem advancePipelineEvents_ensures (hFound : db.tasks.find? task.id = some task) :
    Ensures (advancePipelineEvents db env actor task position) relations
      (Unblocks db (canonicalStatus position) relations) := by
  refine .check fun _ => .bind (statusTransitionEvents_ensures hUnique hFound) fun moved after hMoved => .pure ?_
  have hPosition : Unblocks db (canonicalStatus position) relations [positionEvent task.id position] relations :=
    .of_idle (.cons rfl .nil)
  exact hPosition.append hMoved

include hUnique in
theorem advancePipeline_ensures : Ensures (advancePipeline db env actor id position) relations
      (Unblocks db (canonicalStatus position) relations) := by
  refine .check fun _ => .compute pipelineTask_row fun task ⟨_, hFound⟩ =>
    .ite (fun _ => .pure (.of_idle .nil)) fun _ => ?_
  split
  · exact .lift (.error _)
  · exact advancePipelineEvents_ensures hUnique hFound

include hUnique in
theorem closePipelineStage_ensures {stageIndex : Nat} {instanceName : String} {next : Option PipelinePosition} :
    Ensures (closePipelineStage db env actor id stageIndex instanceName next) relations fun events after =>
      ∃ toStatus, Unblocks db toStatus relations events after := by
  refine .compute pipelineTask_row fun task ⟨hId, hFound⟩ => ?_
  subst hId
  refine .check fun position => .check fun _ => .check fun _ => .check fun closed => ?_
  obtain ⟨fanIn, closed⟩ := closed
  dsimp only
  split
  · exact .pure ⟨.done, .of_idle .nil⟩
  · rename_i target
    refine .bind (advancePipelineEvents_ensures hUnique hFound) fun moved after hMoved => .pure ?_
    have hPosition : Unblocks db (canonicalStatus target) relations [positionEvent task.id closed] relations :=
      .of_idle (.cons rfl .nil)
    exact ⟨_, hPosition.append hMoved⟩
  · exact .pure ⟨.done, .of_idle (.cons rfl .nil)⟩

theorem unlink_ensures (edges : List Relation) :
    Ensures (collect (unlink now) edges) relations fun events after => Idle events ∧
      ∀ edge, edge ∈ after ↔ edge ∈ relations ∧ ∀ picked ∈ edges, edge.id ≠ picked.id := by
  intro events after h
  induction edges generalizing relations events with
  | nil =>
    obtain ⟨rfl, rfl⟩ := collect_nil.mp h
    exact ⟨.nil, fun edge => (and_iff_left fun _ hMem => absurd hMem not_mem_nil).symm⟩
  | cons first rest ih =>
    obtain ⟨unlinked, middle, later, hFirst, hLater, rfl⟩ := collect_cons.mp h
    cases hFirst
    obtain ⟨hIdle, hRows⟩ := ih later hLater
    refine ⟨.append (.cons rfl .nil) hIdle, fun edge => ?_⟩
    rw [hRows edge, forall_mem_cons, ← and_assoc]
    exact and_congr_left' KeyedTable.mem_erase

include hUnique in
theorem deleteTask_ensures :
    Ensures (deleteTask db env id) relations fun events after => (unblockedIn events).Nodup ∧
      (∀ other, other ≠ id → (other ∈ unblockedIn events ↔ Held relations db other ∧ ¬Held after db other)) ∧
      FewerBlocks relations after ∧ (∀ edge ∈ after, edge.source ≠ id) ∧
      ∀ moved fromStatus toStatus, .task (.taskStatusChanged moved fromStatus toStatus) ∉ events := by
  refine .compute requireTask_row fun task ⟨hId, hFound⟩ => .check fun _ => .read (.bind (unlink_ensures _)
    fun unlinked after ⟨hIdle, hRows⟩ => .pure ?_)
  subst hId
  have hStatus : db.statusOf task.id = some task.status := by
    rw [Database.statusOf, hFound]
    rfl
  have hKept : ∀ edge, edge ∈ after ↔ edge ∈ relations ∧ ¬(edge.source = task.id ∨ edge.target = task.id) := by
    intro edge
    rw [hRows edge]
    refine and_congr_right fun hMem => ⟨fun hOther hTouches => ?_, fun hApart picked hPicked hSame => ?_⟩
    · exact hOther edge (by simpa [listByTask, hMem] using hTouches) rfl
    · have hIn : picked ∈ relations ∧ (picked.source = task.id ∨ picked.target = task.id) := by
        simpa [listByTask] using hPicked
      exact hApart (KeyedTable.eq_of_key_eq hMem hIn.1 hSame ▸ hIn.2)
  have hPlans : Idle ((PlanRepo.listPlansForTask db task.id).map fun plan =>
      Event.plan (.planTaskRemoved plan.id task.id)) := .map fun _ => rfl
  have hDeleted : Idle [Event.task (.taskDeleted task.id)] := .cons rfl .nil
  have hAll : unblockedIn (unlinked ++ (listDownstreamToUnblock relations db.tasks task.id).map
      (fun taskId => Event.task (.taskUnblocked taskId task.id env.now)) ++
      (PlanRepo.listPlansForTask db task.id).map (fun plan => Event.plan (.planTaskRemoved plan.id task.id)) ++
      [Event.task (.taskDeleted task.id)]) = listDownstreamToUnblock relations db.tasks task.id := by
    rw [unblockedIn_append, unblockedIn_append, unblockedIn_append, hIdle.unblockedIn_eq, hPlans.unblockedIn_eq,
      hDeleted.unblockedIn_eq, unblockedIn_downstream, append_nil, append_nil, nil_append]
  refine ⟨?_, fun other hOther => ?_, fun edge hEdge _ => ((hKept edge).mp hEdge).1,
    fun edge hEdge hSource => ((hKept edge).mp hEdge).2 (.inl hSource), fun moved fromStatus toStatus hMem => ?_⟩
  · rw [hAll]
    exact nodup_listDownstreamToUnblock hUnique db.tasks task.id
  · rw [hAll]
    refine mem_listDownstreamToUnblock hStatus fun edge hTarget _ => ?_
    rw [hKept edge, not_or]
    exact and_congr_right' (and_iff_left (hTarget.symm ▸ hOther))
  · rcases mem_append.mp hMem with hMem | hMem
    · rcases mem_append.mp hMem with hMem | hMem
      · rcases mem_append.mp hMem with hMem | hMem
        · exact absurd hMem hIdle.not_moved
        · obtain ⟨_, _, hIs⟩ := mem_map.mp hMem
          cases hIs
      · exact absurd hMem hPlans.not_moved
    · exact absurd hMem hDeleted.not_moved

end TaskCommands

namespace RelationCommands

variable {db : Database} {env : Env} {actor : Actor} {relations : Relations}

theorem linkTasks_ensures {source target : TaskId} {kind : RelationKind} :
    Ensures (linkTasks env actor source target kind) relations fun _ after => ∀ edge ∈ relations, edge ∈ after := by
  refine .read (.check fun _ => .compute (fun _ hLinked => hLinked) fun linked hLinked => .bind (.set rfl) fun _ after
    (hSame : after = linked) => .pure fun edge hEdge => ?_)
  obtain ⟨_, _, hRows⟩ := insert_ok hLinked
  exact hSame ▸ (hRows edge).mpr (.inl hEdge)

theorem unlinkTasks_ensures {id : RelationId} (hUnique : UniqueEdges relations) :
    Ensures (unlinkTasks db env.now id) relations fun events after => (unblockedIn events).Nodup ∧
      (∀ other, (∀ edge ∈ relations, edge.target = other → edge.kind = .blocks →
          (db.statusOf edge.source).isSome = true) →
        (other ∈ unblockedIn events ↔ Held relations db other ∧ ¬Held after db other)) ∧
      FewerBlocks relations after ∧
      ∀ moved fromStatus toStatus, .task (.taskStatusChanged moved fromStatus toStatus) ∉ events := by
  refine .read (.compute (fun _ hFound => okOr_eq_ok.mp hFound) fun relation hFound => .bind (.set rfl) fun _ after
    (hSame : after = _) => .pure ?_)
  subst hSame
  have hKept : ∀ edge, edge ∈ delete relations id ↔ edge ∈ relations ∧ edge.id ≠ id :=
    fun edge => KeyedTable.mem_erase
  have hReported : ∀ freed : List Event, unblockedIn (.relation (.taskUnlinked id relation.source relation.target
      relation.kind env.now) :: freed) = unblockedIn freed := fun freed => rfl
  obtain ⟨hMem, hId⟩ := KeyedTable.find?_eq_some_iff.mp hFound
  rw [hReported]
  refine ⟨?_, fun other hStored => ?_, fun edge hEdge _ => ((hKept edge).mp hEdge).1,
    fun moved fromStatus toStatus hIn => ?_⟩
  · split
    · exact nodup_singleton _
    · exact nodup_nil
  · by_cases hBlocks : relation.kind = .blocks ∧ relation.target = other
    · obtain ⟨hKind, rfl⟩ := hBlocks
      obtain ⟨status, hStatus⟩ := Option.isSome_iff_exists.mp (hStored relation hMem rfl hKind)
      have hFreed : relation.target ∈ listDownstreamToUnblock relations db.tasks relation.source ↔
          Held relations db relation.target ∧ ¬Held (delete relations id) db relation.target := by
        refine mem_listDownstreamToUnblock hStatus fun edge hTarget hEdgeKind => ?_
        rw [hKept edge]
        refine and_congr_right fun hEdge => not_congr ⟨fun hSame => ?_, fun hSame => ?_⟩
        · rw [KeyedTable.eq_of_key_eq hEdge hMem (hSame.trans hId.symm)]
        · rw [hUnique edge hEdge relation hMem hSame hTarget (hEdgeKind.trans hKind.symm), hId]
      rw [← hFreed]
      split
      · rename_i hUnblocked
        exact iff_of_true (mem_singleton_self _) hUnblocked.2
      · rename_i hNot
        exact iff_of_false not_mem_nil fun hIn => hNot ⟨hKind, hIn⟩
    · have hSame : Held (delete relations id) db other ↔ Held relations db other := by
        refine ⟨fun h => h.of_fewer fun edge hEdge _ => ((hKept edge).mp hEdge).1, ?_⟩
        rintro ⟨edge, hEdge, hTarget, hKind, hHolds⟩
        refine ⟨edge, (hKept edge).mpr ⟨hEdge, fun hIs => hBlocks ?_⟩, hTarget, hKind, hHolds⟩
        rw [← KeyedTable.eq_of_key_eq hEdge hMem (hIs.trans hId.symm)]
        exact ⟨hKind, hTarget⟩
      rw [hSame]
      refine iff_of_false (fun hIn => ?_) fun ⟨hHeld, hFree⟩ => hFree hHeld
      split at hIn
      · rename_i hUnblocked
        exact hBlocks ⟨hUnblocked.1, (mem_singleton.mp hIn).symm⟩
      · exact absurd hIn not_mem_nil
  · rcases mem_cons.mp hIn with hIs | hIn
    · cases hIs
    · split at hIn
      · cases mem_singleton.mp hIn
      · exact absurd hIn not_mem_nil

end RelationCommands
end Daruma
