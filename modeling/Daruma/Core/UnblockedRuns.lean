import Daruma.Core.TaskCleanup
import Daruma.Core.Unblocking

/-! What an accepted command reports as unblocked: the tasks that lose their last active blocker,
compared with those that have one in the state before it and in the state after it. -/
namespace Daruma

open Outcome List
open Stateful (Ensures)
open RelationEnforcement (listActiveBlockers mem_listActiveBlockers)
open EventEnvelope (payload)
open Database (statusOf_eq)

def Blocked (db : Database) (id : TaskId) : Prop :=
  listActiveBlockers db.relations db.tasks id ≠ []

def Grounded (db : Database) (id : TaskId) : Prop :=
  ∀ edge ∈ db.relations, edge.target = id → edge.kind = .blocks → (db.statusOf edge.source).isSome = true

theorem blocked_iff {db : Database} {id : TaskId} :
    Blocked db id ↔ ∃ edge ∈ db.relations, edge.target = id ∧ edge.kind = .blocks ∧
      ∃ status, db.statusOf edge.source = some status ∧ status ≠ .done := by
  unfold Blocked
  rw [← List.isEmpty_eq_false_iff, ← Bool.not_eq_true, List.isEmpty_iff, List.eq_nil_iff_forall_not_mem]
  push Not
  constructor
  · rintro ⟨blocker, hBlocker⟩
    obtain ⟨⟨edge, hEdge, rfl, hTarget, hKind⟩, task, hTask, hId, hOpen⟩ :=
      mem_listActiveBlockers.mp hBlocker
    refine ⟨edge, hEdge, hTarget, hKind, task.status, ?_, hOpen⟩
    rw [Database.statusOf, ← hId, KeyedTable.find?_of_mem hTask]
    rfl
  · rintro ⟨edge, hEdge, hTarget, hKind, status, hStatus, hOpen⟩
    obtain ⟨task, hFound, rfl⟩ := Option.map_eq_some_iff.mp hStatus
    obtain ⟨hTask, hId⟩ := KeyedTable.find?_eq_some_iff.mp hFound
    exact ⟨edge.source, mem_listActiveBlockers.mpr
      ⟨⟨edge, hEdge, rfl, hTarget, hKind⟩, task, hTask, hId, hOpen⟩⟩

structure SameNews (events wider : List Event) : Prop where
  unblocked : unblockedIn wider = unblockedIn events
  moved : ∀ id fromStatus toStatus, .task (.taskStatusChanged id fromStatus toStatus) ∈ wider →
    .task (.taskStatusChanged id fromStatus toStatus) ∈ events

section

variable {events wider widest first last : List Event}

theorem SameNews.trans (h : SameNews events wider) (h' : SameNews wider widest) : SameNews events widest :=
  ⟨h'.unblocked.trans h.unblocked,
    fun id fromStatus toStatus hMem => h.moved id fromStatus toStatus (h'.moved id fromStatus toStatus hMem)⟩

theorem SameNews.surround (hFirst : Idle first) (hLast : Idle last) : SameNews events (first ++ events ++ last) := by
  refine ⟨?_, fun id fromStatus toStatus hMem => ?_⟩
  · rw [unblockedIn_append, unblockedIn_append, hFirst.unblockedIn_eq, hLast.unblockedIn_eq, append_nil,
      nil_append]
  · rcases mem_append.mp hMem with hMem | hMem
    · exact (mem_append.mp hMem).resolve_left hFirst.not_moved
    · exact absurd hMem hLast.not_moved

theorem SameNews.authenticated (caller : Caller) (events : List Event) :
    SameNews events (events.map (Handler.authenticated caller)) := by
  refine ⟨?_, fun id fromStatus toStatus hMem => ?_⟩
  · rw [unblockedIn, filterMap_map]
    refine filterMap_congr fun event _ => ?_
    dsimp only [Function.comp]
    unfold Handler.authenticated
    split <;> rfl
  · obtain ⟨event, hEvent, hIs⟩ := mem_map.mp hMem
    unfold Handler.authenticated at hIs
    split at hIs
    · cases hIs
    · exact hIs ▸ hEvent

end

/-- A command frees tasks exactly: what its events report as unblocked stops being
held by the edges, and a task that moves to done holds nothing any more. -/
structure FreesExactly (command : Command) (db : Database) (env : Env) (events : List Event) (after : Relations) :
    Prop where
  nodup : (unblockedIn events).Nodup
  mem_iff : ∀ id, Grounded db id → command ≠ .task (.deleteTask id) →
    (id ∈ unblockedIn events ↔ Held db.relations db id ∧ ¬Held after db id)
  fewer : FewerBlocks db.relations after
  moves : ∀ id fromStatus toStatus, .task (.taskStatusChanged id fromStatus toStatus) ∈ events →
    (toStatus = .done ∧ ∀ edge ∈ after, edge.kind = .blocks → edge.source ≠ id) ∨
      (toStatus ≠ .done ∧ unblockedIn events = [])
  deletes : ∀ id, command = .task (.deleteTask id) → ∀ edge ∈ after, edge.source ≠ id
  writes : ∀ id status, command.WritesDirectly db env id status → unblockedIn events = []

def FreesHeld (command : Command) (db : Database) (env : Env) (events : List Event) (after : Relations) : Prop :=
  FreesExactly command db env events after ∨
    ((∃ linking, command = .relation linking) ∧ unblockedIn events = [] ∧
      (∀ id fromStatus toStatus, .task (.taskStatusChanged id fromStatus toStatus) ∉ events) ∧
      ∀ edge ∈ db.relations, edge ∈ after)

section

variable {command : Command} {db : Database} {env : Env} {events wider : List Event} {after : Relations}

theorem FreesHeld.congr (h : FreesHeld command db env events after) (hNews : SameNews events wider) :
    FreesHeld command db env wider after := by
  rcases h with h | ⟨hRelation, hNone, hStill, hMore⟩
  · refine .inl ⟨hNews.unblocked.symm ▸ h.nodup, fun id hGrounded hKept => ?_, h.fewer,
      fun id fromStatus toStatus hMem => ?_, h.deletes, fun id status hDirect => ?_⟩
    · rw [hNews.unblocked]
      exact h.mem_iff id hGrounded hKept
    · rw [hNews.unblocked]
      exact h.moves id fromStatus toStatus (hNews.moved id fromStatus toStatus hMem)
    · rw [hNews.unblocked]
      exact h.writes id status hDirect
  · exact .inr ⟨hRelation, hNews.unblocked.trans hNone,
      fun id fromStatus toStatus hMem => hStill id fromStatus toStatus (hNews.moved id fromStatus toStatus hMem), hMore⟩

theorem FreesHeld.of_idle (hNone : unblockedIn events = [])
    (hStill : ∀ id fromStatus toStatus, .task (.taskStatusChanged id fromStatus toStatus) ∉ events)
    (hKept : ∀ id, command ≠ .task (.deleteTask id)) : FreesHeld command db env events db.relations := by
  refine .inl ⟨hNone.symm ▸ nodup_nil, fun id _ _ => ?_, fun _ hEdge _ => hEdge,
    fun id fromStatus toStatus hMem => absurd hMem (hStill id fromStatus toStatus),
    fun id hDelete => absurd hDelete (hKept id), fun _ _ _ => hNone⟩
  rw [hNone]
  exact iff_of_false not_mem_nil fun ⟨hHeld, hFree⟩ => hFree hHeld

theorem FreesHeld.of_unblocks {toStatus : Status} (h : Unblocks db toStatus db.relations events after)
    (hKept : ∀ id, command ≠ .task (.deleteTask id))
    (hIndirect : ∀ id status, ¬command.WritesDirectly db env id status) : FreesHeld command db env events after := by
  refine .inl ⟨h.nodup, fun id _ _ => h.mem_iff id, h.fewer, fun id fromStatus status hMem => ?_,
    fun id hDelete => absurd hDelete (hKept id), fun id status hDirect => absurd hDirect (hIndirect id status)⟩
  obtain ⟨rfl, hReleased⟩ := h.moves id fromStatus status hMem
  by_cases hDone : status = .done
  · exact .inl ⟨hDone, hReleased hDone⟩
  · exact .inr ⟨hDone, h.quiet hDone⟩

end

namespace TaskCommands

variable {config : Config} {db : Database} {env minting : Env} {actor : Actor}

theorem buildEvents_freesHeld {command : TaskCommand} (hUnique : UniqueEdges db.relations)
    (hFrees : (Command.task command).frees = true) :
    Ensures (buildEvents config db env actor command) db.relations
      (FreesHeld (.task command) db minting) := by
  have hNoIntake : ∀ id (status : Status), ¬∃ intake ∈ (Command.task command).intakes minting,
      intake.isNew db = true ∧ intake.id = id ∧ intake.status = status := by
    rintro id status ⟨intake, hIntake, _⟩
    rw [Command.intakes_eq_nil (Command.plain_of_frees hFrees).1] at hIntake
    exact absurd hIntake not_mem_nil
  cases command with
  | createTask | splitTask | updateTask | setPriority => cases hFrees
  | deleteTask id =>
    refine .mono (deleteTask_ensures hUnique) fun events after ⟨hNodup, hMem, hFewer, hGone, hStill⟩ => ?_
    refine .inl ⟨hNodup, ?_, hFewer, ?_, ?_, ?_⟩
    · intro other _ hKept
      exact hMem other fun hSame => hKept (hSame ▸ rfl)
    · intro moved fromStatus toStatus hMoved
      exact absurd hMoved (hStill moved fromStatus toStatus)
    · intro other hDelete
      cases hDelete
      exact hGone
    · intro other status hDirect
      exact absurd hDirect (not_or.mpr ⟨not_false, hNoIntake other status⟩)
  | completeTask id completionNote =>
    exact .mono (completeTask_ensures hUnique) fun _ _ h => .of_unblocks h (fun _ hIs => by cases hIs)
      fun other status => not_or.mpr ⟨not_false, hNoIntake other status⟩
  | setStatus id status force reason comment =>
    exact .mono (setStatus_ensures hUnique) fun _ _ h => .of_unblocks h (fun _ hIs => by cases hIs)
      fun other status => not_or.mpr ⟨not_false, hNoIntake other status⟩
  | advancePipeline id position =>
    exact .mono (advancePipeline_ensures hUnique) fun _ _ h => .of_unblocks h (fun _ hIs => by cases hIs)
      fun other status => not_or.mpr ⟨not_false, hNoIntake other status⟩
  | closePipelineStage id stageIndex instanceName next =>
    exact .mono (closePipelineStage_ensures hUnique) fun _ _ ⟨_, h⟩ => .of_unblocks h (fun _ hIs => by cases hIs)
      fun other status => not_or.mpr ⟨not_false, hNoIntake other status⟩
  | bulkSetStatus ids status =>
    exact .mono (bulkSetStatus_ensures hUnique) fun _ _ h => .of_unblocks h (fun _ hIs => by cases hIs)
      fun other status => not_or.mpr ⟨not_false, hNoIntake other status⟩

end TaskCommands

theorem RelationCommands.buildEvents_freesHeld {db : Database} {env minting : Env} {actor : Actor}
    {command : RelationCommand} (hUnique : UniqueEdges db.relations) :
    Ensures (buildEvents db env actor command) db.relations (FreesHeld (.relation command) db minting) := by
  cases command with
  | linkTasks source target kind =>
    refine .bind (linkTasks_ensures) fun events after hMore => .pure (.inr ⟨⟨_, rfl⟩, ?_, ?_, hMore⟩)
    · rw [unblockedIn, filterMap_map]
      exact filterMap_eq_nil_iff.mpr fun _ _ => rfl
    · intro id fromStatus toStatus hMem
      obtain ⟨_, _, hIs⟩ := mem_map.mp hMem
      cases hIs
  | unlinkTasks id =>
    refine .mono (unlinkTasks_ensures hUnique) fun events after hFreed => ?_
    obtain ⟨hNodup, hMem, hFewer, hStill⟩ := hFreed
    exact .inl ⟨hNodup, fun other hGrounded _ => hMem other hGrounded, hFewer,
      fun moved fromStatus toStatus hMoved => absurd hMoved (hStill moved fromStatus toStatus),
      (fun _ hIs => by cases hIs), fun _ _ hDirect => absurd hDirect (not_or.mpr ⟨not_false,
        not_exists.mpr fun _ hIntake => absurd hIntake.1 not_mem_nil⟩)⟩

open Outcome List

section

variable {config : Config} {db : Database} {env : Env} {links : Bool} {actor : Actor} {command : Command}

variable {event : Event}

theorem isIdle_of_not_plain (h : Sanctioned db env command event)
    (hNotPlain : ¬command.IsPlain) : event.isIdle = true := by
  cases event with
  | task event =>
    cases event with
    | taskStatusChanged | taskUnblocked => exact absurd h hNotPlain
    | _ => rfl
  | _ => rfl

theorem MayRecord.idle (h : MayRecord db env links command event) (hFrees : command.frees = false) : event.isIdle = true := by
  cases h with
  | moved hMoves => cases hFrees.symm.trans (TaskCommand.frees_of_moves hMoves)
  | unblocked hUnblocks => cases hFrees.symm.trans hUnblocks
  | _ => rfl

end

namespace Handler

variable {config : Config} {db : Database} {env : Env} {caller : Caller} {actor claimed : Actor} {command : Command}

variable {event : Event}

theorem draft_idle (h : command.frees = false) :
    Stateful.Yields (draft config db env caller actor command) fun drafted => Idle drafted.1 :=
  draft_rule (fun _ hRecords => hRecords.idle h) fun _ _ => rfl

theorem draft_freesHeld (hUnique : UniqueEdges db.relations) {batch : List Event} {warnings : List MutationWarning}
    {relations : Relations}
    (h : draft config db (env.part 0) caller actor command db.relations = (.ok (batch, warnings), relations)) :
    FreesHeld command db (builderEnv env) batch relations := by
  have hIdle : Idle batch → command.writesRelations = false → (∀ id, command ≠ .task (.deleteTask id)) →
      FreesHeld command db (builderEnv env) batch relations := by
    intro hIdle hReads hKept
    have hSame : (draft config db (env.part 0) caller actor command db.relations).2 = db.relations :=
      draft_readsOnly hReads _
    rw [h] at hSame
    subst hSame
    exact .of_idle hIdle.unblockedIn_eq (fun _ _ _ => hIdle.not_moved) hKept
  have hBuilds : ∀ built, batch = built.map (authenticated caller) ++
      (Reconciliation.planReconciliations db (built.map (authenticated caller))).map .plan →
      SameNews built batch := by
    rintro built rfl
    have hClosing : SameNews (built.map (authenticated caller)) ([] ++ built.map (authenticated caller) ++
        (Reconciliation.planReconciliations db (built.map (authenticated caller))).map .plan) :=
      .surround .nil (.map fun _ => rfl)
    exact (SameNews.authenticated caller built).trans hClosing
  cases hFrees : command.frees with
  | false =>
    refine hIdle (draft_idle hFrees _ _ _ h) ?_ ?_
    · cases command with
      | task command => cases command <;> first | rfl | cases hFrees
      | relation => cases hFrees
      | _ => rfl
    · rintro id rfl
      cases hFrees
  | true =>
    cases command with
    | task command =>
      obtain ⟨built, hBuilt, hBatch⟩ := draft_ok (fun plan hIs => by cases hIs) h
      have hHeld : FreesHeld (.task command) db (builderEnv env) built relations :=
        TaskCommands.buildEvents_freesHeld hUnique hFrees _ _ hBuilt
      exact hHeld.congr (hBuilds built hBatch)
    | relation command =>
      obtain ⟨built, hBuilt, hBatch⟩ := draft_ok (fun plan hIs => by cases hIs) h
      have hHeld : FreesHeld (.relation command) db (builderEnv env) built relations :=
        RelationCommands.buildEvents_freesHeld hUnique _ _ hBuilt
      exact hHeld.congr (hBuilds built hBatch)
    | _ => cases hFrees

variable {batch : List Event} {relations : Relations} {trail : GateStage.Trail}
  {persisted : List EventEnvelope} {appended applied : Database}

theorem isIdle_of_isAudit (h : event.isAudit = true) : event.isIdle = true := by
  cases event with
  | audit event => rfl
  | _ => cases h

theorem isIdle_of_isRelease (h : IsRelease event) : event.isIdle = true := by
  obtain ⟨agentId, taskId, claimId, rfl⟩ := h
  rfl

variable (h : Accepted config env caller command claimed db batch relations trail persisted appended)

include h in
theorem Accepted.idle_of_takesIn (hTakesIn : command.takesIn = true) : Idle (persisted.map payload) := by
  refine h.payload_rule (fun hRelinking hEvent => ?_) (fun _ => rfl) fun _ _ _ => rfl
  rw [hRelinking.reads Event.isIdle fun _ _ => rfl]
  exact isIdle_of_not_plain (h.sanctioned _ hEvent) fun hPlain => Bool.noConfusion (hPlain.1.symm.trans hTakesIn)

include h in
theorem Accepted.sameNews : SameNews batch (persisted.map payload) := by
  cases hTakesIn : command.takesIn with
  | true =>
    have hBatch : Idle batch := fun event hMem => isIdle_of_not_plain (h.sanctioned event hMem) fun hPlain =>
      Bool.noConfusion (hPlain.1.symm.trans hTakesIn)
    have hPersisted := h.idle_of_takesIn hTakesIn
    exact ⟨hPersisted.unblockedIn_eq.trans hBatch.unblockedIn_eq.symm,
      fun _ _ _ hMem => absurd hMem hPersisted.not_moved⟩
  | false =>
    obtain ⟨first, last, hPayloads, hFirst, hLast⟩ := h.surrounded hTakesIn
    rw [hPayloads]
    exact .surround (fun event hMem => isIdle_of_isAudit (hFirst event hMem)) fun event hMem =>
      (hLast event hMem).elim isIdle_of_isAudit isIdle_of_isRelease

include h in
theorem Accepted.freesHeld (hUnique : UniqueEdges db.relations) :
    FreesHeld command db (builderEnv env) (persisted.map payload) relations := by
  obtain ⟨warnings, hBuilt⟩ := h.built
  exact (draft_freesHeld hUnique hBuilt).congr h.sameNews

end Handler

/-- How a call that reports some events changes the status of a task. -/
inductive StatusStep (command : Command) (env : Env) (events : List Event) (before after : Database) (id : TaskId) :
    Prop where
  | kept (h : after.statusOf id = before.statusOf id)
  | moved (fromStatus toStatus : Status) (hChanged : .task (.taskStatusChanged id fromStatus toStatus) ∈ events)
      (hAfter : after.statusOf id = some toStatus)
  | deleted (hCommand : command = .task (.deleteTask id)) (hAfter : after.statusOf id = none)
  | written (status : Status) (hDirect : command.WritesDirectly before env id status)
      (hAfter : after.statusOf id = some status)

variable {events : List Event} {before after : Database}

variable {id : TaskId}

theorem StatusStep.congr {command : Command} {env : Env} {last : Database} (h : StatusStep command env events before after id)
    (hSame : last.lifecycleOf id = after.lifecycleOf id) : StatusStep command env events before last id := by
  have hStatus : last.statusOf id = after.statusOf id := by
    rw [statusOf_eq, hSame, ← statusOf_eq]
  cases h with
  | kept h => exact .kept (hStatus.trans h)
  | moved fromStatus toStatus hChanged hAfter => exact .moved fromStatus toStatus hChanged (hStatus.trans hAfter)
  | deleted hCommand hAfter => exact .deleted hCommand (hStatus.trans hAfter)
  | written status hDirect hAfter => exact .written status hDirect (hStatus.trans hAfter)

namespace Handler

variable {config : Config} {db : Database} {env : Env} {caller : Caller} {claimed : Actor} {command : Command}
  {batch : List Event} {relations : Relations} {trail : GateStage.Trail} {persisted : List EventEnvelope}
  {appended applied : Database}

theorem Accepted.statusStep
    (h : Accepted config env caller command claimed db batch relations trail persisted appended)
    (hApplied : Projections.applyEvents (env.part 4) persisted appended = (.ok (), applied)) (id : TaskId) :
    StatusStep command (builderEnv env) (persisted.map payload) db applied id := by
  have hAfter := h.lifecycles hApplied id
  cases hTakesIn : command.takesIn with
  | true =>
    have hNotPlain : ¬command.IsPlain := fun hPlain => Bool.noConfusion (hPlain.1.symm.trans hTakesIn)
    rcases h.brings hNotPlain hApplied id with hKept | ⟨intake, hIntake, hNew, hId, hBrought⟩
    · refine .kept ?_
      rw [statusOf_eq, hKept, ← statusOf_eq]
    · refine .written intake.status (.inr ⟨intake, hIntake, hNew, hId, rfl⟩) ?_
      rw [statusOf_eq, hBrought]
      rfl
  | false =>
    cases h.effect hTakesIn id with
    | spared hSpares =>
      refine .kept ?_
      rw [statusOf_eq, hAfter, hSpares.after, ← statusOf_eq]
    | moved task toStatus hMoved =>
      obtain ⟨closed, hEffect, _⟩ := hMoved.effect task.completedAt.isSome
      have hBefore : db.lifecycleOf id = some (task.status, task.completedAt.isSome) := by
        rw [Database.lifecycleOf, TaskRepo.lifecycleOf, hMoved.found]
        rfl
      refine .moved task.status toStatus hMoved.changed ?_
      rw [statusOf_eq, hAfter, hBefore, hEffect]
      rfl
    | deleted task hFound hCommand hRow _ _ =>
      refine .deleted hCommand ?_
      rw [statusOf_eq, hAfter, hRow]
      rfl
    | patched status hPatches hRow _ =>
      rw [hRow] at hAfter
      cases hBefore : db.lifecycleOf id with
      | none =>
        refine .kept ?_
        rw [statusOf_eq, statusOf_eq, hAfter, hBefore]
        rfl
      | some row =>
        refine .written status (.inl hPatches) ?_
        rw [statusOf_eq, hAfter, hBefore]
        rfl

end Handler

def CompletesNoBlocker (command : Command) (db : Database) (env : Env) (id : TaskId) : Prop :=
  ∀ edge ∈ db.relations, edge.target = id → edge.kind = .blocks →
    command.WritesDirectly db env edge.source .done → db.statusOf edge.source = some .done

theorem FreesHeld.nodup {command : Command} {db : Database} {env : Env} {after : Relations}
    (h : FreesHeld command db env events after) : (unblockedIn events).Nodup := by
  rcases h with h | ⟨_, hNone, _⟩
  · exact h.nodup
  · rw [hNone]
    exact nodup_nil

/-- The tasks that are reported lost their last active blocker, and they are all
that did. -/
theorem FreesHeld.unblocked_iff {command : Command} {env : Env}
    (h : FreesHeld command before env events after.relations)
    (hSteps : ∀ id, StatusStep command env events before after id) (hGrounded : Grounded before id)
    (hKept : command ≠ .task (.deleteTask id)) (hDirect : CompletesNoBlocker command before env id) :
    id ∈ unblockedIn events ↔ Blocked before id ∧ ¬Blocked after id := by
  rcases h with h | ⟨⟨linking, rfl⟩, hNone, hStill, hMore⟩
  · rw [h.mem_iff id hGrounded hKept]
    constructor
    · rintro ⟨⟨edge, hEdge, hTarget, hKind, hOpen⟩, hFree⟩
      have hReported : id ∈ unblockedIn events :=
        (h.mem_iff id hGrounded hKept).mpr ⟨⟨edge, hEdge, hTarget, hKind, hOpen⟩, hFree⟩
      refine ⟨blocked_iff.mpr ⟨edge, hEdge, hTarget, hKind, ?_⟩, fun hBlocked => ?_⟩
      · obtain ⟨status, hStatus⟩ := Option.isSome_iff_exists.mp (hGrounded edge hEdge hTarget hKind)
        exact ⟨status, hStatus, fun hDone => hOpen (hDone ▸ hStatus)⟩
      · obtain ⟨left, hLeft, hLeftTarget, hLeftKind, status, hStatus, hNotDone⟩ := blocked_iff.mp hBlocked
        have hDone : before.statusOf left.source = some .done := by
          by_contra hOpen
          exact hFree ⟨left, hLeft, hLeftTarget, hLeftKind, hOpen⟩
        -- a done task that is open afterwards was moved or written, which reports nothing
        cases hSteps left.source with
        | kept hSame =>
          rw [hSame, hDone] at hStatus
          exact hNotDone (Option.some.inj hStatus).symm
        | moved fromStatus toStatus hChanged hAfter =>
          rw [hStatus] at hAfter
          rcases h.moves _ _ _ hChanged with ⟨hTo, _⟩ | ⟨_, hNone⟩
          · exact hNotDone ((Option.some.inj hAfter).trans hTo)
          · rw [hNone] at hReported
            exact not_mem_nil hReported
        | deleted _ hAfter => cases hStatus.symm.trans hAfter
        | written written hWritten _ =>
          rw [h.writes _ _ hWritten] at hReported
          exact not_mem_nil hReported
    · rintro ⟨hBlocked, hFree⟩
      obtain ⟨edge, hEdge, hTarget, hKind, status, hStatus, hNotDone⟩ := blocked_iff.mp hBlocked
      refine ⟨⟨edge, hEdge, hTarget, hKind, fun hDone => hNotDone ?_⟩, ?_⟩
      · exact Option.some.inj (hStatus.symm.trans hDone)
      rintro ⟨left, hLeft, hLeftTarget, hLeftKind, hOpen⟩
      have hOld := h.fewer left hLeft hLeftKind
      obtain ⟨old, hOldStatus⟩ := Option.isSome_iff_exists.mp (hGrounded left hOld hLeftTarget hLeftKind)
      have hNoBlocker : ∀ status, after.statusOf left.source = some status → status = .done := by
        intro status hAfter
        by_contra hNotDone
        exact hFree (blocked_iff.mpr ⟨left, hLeft, hLeftTarget, hLeftKind, status, hAfter, hNotDone⟩)
      cases hSteps left.source with
      | kept hSame => exact hOpen (hOldStatus.trans (congrArg some (hNoBlocker old (hSame.trans hOldStatus))))
      | moved fromStatus toStatus hChanged hAfter =>
        rcases h.moves _ _ _ hChanged with ⟨_, hReleased⟩ | ⟨hTo, _⟩
        · exact hReleased left hLeft hLeftKind rfl
        · exact hTo (hNoBlocker toStatus hAfter)
      | deleted hCommand _ => exact h.deletes _ hCommand left hLeft rfl
      | written written hWritten hAfter =>
        rw [hNoBlocker written hAfter] at hWritten
        exact hOpen (hDirect left hOld hLeftTarget hLeftKind hWritten)
  · rw [hNone]
    refine iff_of_false not_mem_nil fun ⟨hBlocked, hFree⟩ => hFree ?_
    obtain ⟨edge, hEdge, hTarget, hKind, status, hStatus, hNotDone⟩ := blocked_iff.mp hBlocked
    refine blocked_iff.mpr ⟨edge, hMore edge hEdge, hTarget, hKind, status, ?_, hNotDone⟩
    cases hSteps edge.source with
    | kept hSame => exact hSame.trans hStatus
    | moved fromStatus toStatus hChanged => exact absurd hChanged (hStill _ _ _)
    | deleted hCommand => cases hCommand
    | written written hWritten =>
      rcases hWritten with hPatches | ⟨intake, hIntake, _⟩
      · exact absurd hPatches not_false
      · exact absurd hIntake not_mem_nil

namespace Server

open Handler (handled builderEnv)

variable {config : Config}

/-- In every state of a run, a command that is answered reports a task as unblocked
exactly when the task lost its last active blocker, and reports it once. -/
theorem unblocked_exactly (calls : List Call) {env : Env} {caller : Caller} {command : Command} {actor : Actor}
    {answer : DispatchOutcome} {after : Database}
    (hAnswer : Handler.handleWithRunOwner config env caller command actor (run config calls) = (.ok answer, after)) :
    (unblockedIn (answer.events.map EventEnvelope.payload)).Nodup ∧
      ∀ id, Grounded (run config calls) id → command ≠ .task (.deleteTask id) →
        CompletesNoBlocker command (run config calls) (builderEnv env) id →
        (id ∈ unblockedIn (answer.events.map EventEnvelope.payload) ↔
          Blocked (run config calls) id ∧ ¬Blocked after id) := by
  have hUnique : UniqueEdges (run config calls).relations :=
    uniqueEdges_step.trace (run_relations calls) fun edge hEdge => absurd hEdge (KeyedTable.not_mem_empty edge)
  generalize run config calls = before at hAnswer hUnique
  cases handled hAnswer with
  | unlogged hOutcome hRelations hAudited =>
    rename_i relations
    have hAfter : after.relations = relations ∧ ∀ id, after.statusOf id = before.statusOf id := by
      obtain ⟨_, _, _, _, _, _, rfl⟩ := hAudited
      exact ⟨rfl, fun _ => rfl⟩
    rw [hOutcome answer rfl]
    rcases hRelations with rfl | ⟨drafted, hDraft, hEmpty⟩
    · have hSame : ∀ id, Blocked after id ↔ Blocked before id := by
        intro id
        rw [blocked_iff, blocked_iff, hAfter.1]
        simp only [hAfter.2]
      refine ⟨nodup_nil, fun id _ _ _ => iff_of_false not_mem_nil fun ⟨hBlocked, hFree⟩ => ?_⟩
      exact hFree ((hSame id).mpr hBlocked)
    · have hNone := hEmpty answer rfl
      cases drafted with
      | error e => cases hNone
      | ok drafted =>
        obtain ⟨batch, warnings⟩ := drafted
        cases hNone
        have hFrees := Handler.draft_freesHeld hUnique hDraft
        refine ⟨hFrees.nodup, fun id => ?_⟩
        rw [← hAfter.1] at hFrees
        exact hFrees.unblocked_iff fun other => .kept (hAfter.2 other)
  | projected hAccepted hApplied hEvents =>
    rename_i relations _ persisted appended applied
    have hSame : Projections.SameLifecycles applied
        (AutoAppend.autoAppendLogs config (env.part 5) applied persisted) :=
      AutoAppend.autoAppendLogs_lifecycles _ _
    have hRelations : (AutoAppend.autoAppendLogs config (env.part 5) applied persisted).relations = relations := by
      obtain ⟨_, _, _, _, _, rfl⟩ := hAccepted.frame
      obtain ⟨_, _, _, _, _, _, hLines, _⟩ := @AutoAppend.autoAppendLogs_lines config (env.part 5) persisted applied
      rw [hLines, (Projections.applyEvents_sameLog hApplied).2.2]
    have hFrees := hAccepted.freesHeld hUnique
    rw [← hRelations] at hFrees
    rw [hEvents]
    refine ⟨hFrees.nodup, fun id => hFrees.unblocked_iff fun other => ?_⟩
    exact (hAccepted.statusStep hApplied other).congr (hSame other)

private def blockedPair : List Call := commands [
  .task (.createTask { NewTask.new "first" with id := some ⟨7⟩ }),
  .task (.createTask { NewTask.new "second" with id := some ⟨8⟩ }),
  .relation (.linkTasks ⟨7⟩ ⟨8⟩ .blocks)]

private def answeredThen (command : Command) : Except CoreError DispatchOutcome × Database :=
  Handler.handleWithRunOwner engineConfig (nthEnv 4) .internal command .anyUser (run engineConfig blockedPair)

private def blockersAfter (command : Command) : List TaskId :=
  listActiveBlockers (answeredThen command).2.relations (answeredThen command).2.tasks ⟨8⟩

private theorem blockedPair_blocked : Blocked (run engineConfig blockedPair) ⟨8⟩ := by
  have hBefore : listActiveBlockers (run engineConfig blockedPair).relations
      (run engineConfig blockedPair).tasks ⟨8⟩ = [⟨7⟩] := by decide +kernel
  unfold Blocked
  rw [hBefore]
  exact cons_ne_nil _ _

/-- Completing the first reports the second. -/
theorem unblocked_exactly_completed : ∃ answer after,
    answeredThen (.task (.completeTask ⟨7⟩ none)) = (.ok answer, after) ∧
    ⟨8⟩ ∈ unblockedIn (answer.events.map EventEnvelope.payload) := by
  have hAnswered : (answeredThen (.task (.completeTask ⟨7⟩ none))).1.toBool = true := by decide +kernel
  have hAfter : blockersAfter (.task (.completeTask ⟨7⟩ none)) = [] := by decide +kernel
  have hEdges : (run engineConfig blockedPair).relations.rows.all
      (fun edge => ((run engineConfig blockedPair).statusOf edge.source).isSome) = true := by decide +kernel
  unfold blockersAfter at hAfter
  cases hRun : answeredThen (.task (.completeTask ⟨7⟩ none)) with
  | mk outcome after =>
  rw [hRun] at hAnswered hAfter
  cases outcome with
  | error e => cases hAnswered
  | ok answer =>
    refine ⟨answer, after, rfl, ((unblocked_exactly blockedPair hRun).2 ⟨8⟩ (fun edge hEdge _ _ => ?_)
      (fun hDelete => by cases hDelete) (fun edge _ _ _ hDirect => ?_)).mpr
      ⟨blockedPair_blocked, fun hBlocked => hBlocked hAfter⟩⟩
    · exact all_eq_true.mp hEdges edge (KeyedTable.mem_rows.mpr hEdge)
    · rcases hDirect with hPatches | ⟨intake, hIntake, _⟩
      · exact absurd hPatches not_false
      · exact absurd hIntake not_mem_nil

/-- Deleting the second leaves it without blockers, and reports nothing. -/
theorem deleted_task_not_unblocked : ∃ answer after, answeredThen (.task (.deleteTask ⟨8⟩)) = (.ok answer, after) ∧
    ¬(⟨8⟩ ∈ unblockedIn (answer.events.map EventEnvelope.payload) ↔
      Blocked (run engineConfig blockedPair) ⟨8⟩ ∧ ¬Blocked after ⟨8⟩) := by
  have hAnswered : (answeredThen (.task (.deleteTask ⟨8⟩))).1.toOption.map
      (fun answer => unblockedIn (answer.events.map EventEnvelope.payload)) = some [] := by decide +kernel
  have hAfter : blockersAfter (.task (.deleteTask ⟨8⟩)) = [] := by decide +kernel
  unfold blockersAfter at hAfter
  cases hRun : answeredThen (.task (.deleteTask ⟨8⟩)) with
  | mk outcome after =>
  rw [hRun] at hAnswered hAfter
  cases outcome with
  | error e => cases hAnswered
  | ok answer =>
    refine ⟨answer, after, rfl, fun hIff => ?_⟩
    have hNone : unblockedIn (answer.events.map EventEnvelope.payload) = [] := Option.some.inj hAnswered
    have hReported : ⟨8⟩ ∈ unblockedIn (answer.events.map EventEnvelope.payload) :=
      hIff.mpr ⟨blockedPair_blocked, fun hBlocked => hBlocked hAfter⟩
    rw [hNone] at hReported
    exact not_mem_nil hReported

end Server
end Daruma
