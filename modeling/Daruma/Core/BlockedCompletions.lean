import Daruma.Core.UnblockedRuns

/-! Completions of tasks that others block. The transitions of a task look at its
active blockers first, also at those that the same command has just completed; a
status that a command writes directly does not. -/
namespace Daruma

open Outcome List
open Stateful (Ensures)

def Event.completedTask : Event → Option TaskId
  | .task (.taskStatusChanged taskId _ .done) => some taskId
  | _ => none

/-- The tasks that a batch moves to done, in its order. -/
def completedIn (events : List Event) : List TaskId := events.filterMap Event.completedTask

/-- Every task of the list finds each of its blockers not stored, done, or earlier in
the list. -/
def FreeInTurn (db : Database) (relations : Relations) (completed : List TaskId) : Prop :=
  ∀ first id rest, completed = first ++ id :: rest → ∀ edge ∈ relations, edge.target = id → edge.kind = .blocks →
    (∀ status, db.statusOf edge.source = some status → status = .done) ∨ edge.source ∈ first

section

variable {db : Database} {relations middle : Relations} {first second events : List Event}
  {completed later : List TaskId}

theorem completedIn_append : completedIn (first ++ second) = completedIn first ++ completedIn second :=
  filterMap_append

theorem completedIn_eq_nil (h : Idle events) : completedIn events = [] := by
  refine filterMap_eq_nil_iff.mpr fun event hMem => ?_
  have hIdle : event.isIdle = true := h event hMem
  cases event with
  | task event =>
    cases event with
    | taskStatusChanged => cases hIdle
    | _ => rfl
  | _ => rfl

theorem completedIn_of_noTransitions (h : NoTransitions events) : completedIn events = [] := by
  refine filterMap_eq_nil_iff.mpr fun event hMem => ?_
  have hStill : event.isTransition = false := h event hMem
  unfold Event.completedTask
  split
  · cases hStill
  · rfl

theorem FreeInTurn.nil : FreeInTurn db relations [] := by
  intro first id rest h
  cases first <;> cases h

theorem FreeInTurn.singleton {id : TaskId} (h : ∀ edge ∈ relations, edge.target = id → edge.kind = .blocks →
      ∀ status, db.statusOf edge.source = some status → status = .done) :
    FreeInTurn db relations [id] := by
  intro first other rest hSplit edge hEdge hTarget hKind
  rcases append_eq_singleton_iff.mp hSplit.symm with ⟨_, hOne⟩ | ⟨_, hNone⟩
  · cases hOne
    exact .inl (h edge hEdge hTarget hKind)
  · cases hNone

theorem FreeInTurn.append (h : FreeInTurn db relations completed) (h' : FreeInTurn db middle later)
    (hKept : ∀ edge ∈ relations, edge.kind = .blocks → edge ∈ middle ∨ edge.source ∈ completed) :
    FreeInTurn db relations (completed ++ later) := by
  intro first id rest hSplit edge hEdge hTarget hKind
  have hLater : ∀ {before}, first = completed ++ before → later = before ++ id :: rest →
      (∀ status, db.statusOf edge.source = some status → status = .done) ∨ edge.source ∈ first := by
    rintro before rfl hRest
    rcases hKept edge hEdge hKind with hMiddle | hDone
    · exact (h' before id rest hRest edge hMiddle hTarget hKind).imp_right (mem_append_right _)
    · exact .inr (mem_append_left _ hDone)
  rcases append_eq_append_iff.mp hSplit with ⟨before, hFirst, hRest⟩ | ⟨after, hFirst, hRest⟩
  · exact hLater hFirst hRest
  · cases after with
    | nil =>
      have hAll : later = [] ++ id :: rest := hRest.symm
      have hBefore : first = completed ++ [] := by rw [hFirst, append_nil, append_nil]
      exact hLater hBefore hAll
    | cons other after =>
      cases hRest
      exact h first id after hFirst edge hEdge hTarget hKind

end

/-- What a builder of transitions does: it completes tasks in an order in which they
are free, and takes away only edges out of these. -/
structure CompletesFree (db : Database) (before : Relations) (events : List Event) (after : Relations) : Prop where
  free : FreeInTurn db before (completedIn events)
  kept : ∀ edge ∈ before, edge.kind = .blocks → edge ∈ after ∨ edge.source ∈ completedIn events

namespace CompletesFree

variable {db : Database} {before middle after : Relations} {first second events : List Event}

theorem of_idle (h : Idle events) : CompletesFree db before events before := by
  refine ⟨?_, fun edge hEdge _ => .inl hEdge⟩
  rw [completedIn_eq_nil h]
  exact .nil

theorem append (h : CompletesFree db before first middle) (h' : CompletesFree db middle second after) :
    CompletesFree db before (first ++ second) after := by
  refine ⟨?_, fun edge hEdge hKind => ?_⟩
  · rw [completedIn_append]
    exact h.free.append h'.free h.kept
  · rw [completedIn_append, mem_append]
    rcases h.kept edge hEdge hKind with hMiddle | hDone
    · exact (h'.kept edge hMiddle hKind).imp_right .inr
    · exact .inr (.inl hDone)

end CompletesFree

namespace TaskCommands

variable {config : Config} {db : Database} {env : Env} {actor : Actor} {now : Timestamp} {relations : Relations}

variable {id : TaskId} {task : Task} {toStatus : Status}

variable {status : Status}

theorem done_of_not_blocked
    (h : (RelationEnforcement.listActiveBlockers relations db.tasks id).isEmpty = true) {edge : Relation}
    (hEdge : edge ∈ relations) (hTarget : edge.target = id) (hKind : edge.kind = .blocks)
    (hStatus : db.statusOf edge.source = some status) : status = .done := by
  by_contra hOpen
  obtain ⟨task, hFound, rfl⟩ := Option.map_eq_some_iff.mp hStatus
  obtain ⟨hTask, hId⟩ := KeyedTable.find?_eq_some_iff.mp hFound
  have hActive : edge.source ∈ RelationEnforcement.listActiveBlockers relations db.tasks id :=
    RelationEnforcement.mem_listActiveBlockers.mpr ⟨⟨edge, hEdge, rfl, hTarget, hKind⟩, task, hTask, hId, hOpen⟩
  rw [isEmpty_iff.mp h] at hActive
  exact not_mem_nil hActive

theorem completesFree_of_done {closure released documents : List Event} {after : Relations}
    (hFree : (RelationEnforcement.listActiveBlockers relations db.tasks task.id).isEmpty = true)
    (hClosure : Idle closure) (hDocuments : Idle documents)
    (hRows : ∀ edge, edge.kind = .blocks → (edge ∈ after ↔ edge ∈ relations ∧ edge.source ≠ task.id))
    (hStill : ∀ moved fromStatus toStatus, .task (.taskStatusChanged moved fromStatus toStatus) ∉ released) :
    CompletesFree db relations ([.task (.taskStatusChanged task.id task.status .done)] ++ closure ++ released ++
      documents) after := by
  have hReleased : completedIn released = [] := by
    refine filterMap_eq_nil_iff.mpr fun event hMem => ?_
    unfold Event.completedTask
    split
    · exact absurd hMem (hStill _ _ _)
    · rfl
  have hAll : completedIn ([.task (.taskStatusChanged task.id task.status .done)] ++ closure ++ released ++
      documents) = [task.id] := by
    rw [completedIn_append, completedIn_append, completedIn_append, completedIn_eq_nil hClosure,
      completedIn_eq_nil hDocuments, hReleased]
    rfl
  refine ⟨?_, fun edge hEdge hKind => ?_⟩
  · rw [hAll]
    exact .singleton fun edge hEdge hTarget hKind status hStatus =>
      done_of_not_blocked hFree hEdge hTarget hKind hStatus
  · rw [hAll, mem_singleton]
    by_cases hSource : edge.source = task.id
    · exact .inr hSource
    · exact .inl ((hRows edge hKind).mpr ⟨hEdge, hSource⟩)

theorem statusTransitionEvents_completesFree :
    Ensures (statusTransitionEvents db task toStatus actor now) relations (CompletesFree db relations) := by
  refine .ite (fun _ => .pure (.of_idle .nil)) fun _ => .read (.compute (fun _ h => ensure_eq_ok.mp h) fun _ hChecked =>
    .ite (fun hDone => ?_) fun hOther => ?_)
  · subst hDone
    exact .bind (releaseDownstream_ensures task.id) fun released after ⟨_, hRows, hStill⟩ =>
      .pure (completesFree_of_done hChecked closureEvents_idle (closeTaskDocuments_idle task.id .done) hRows hStill)
  · refine .skip (.pure ?_)
    have hMoved : CompletesFree db relations [.task (.taskStatusChanged task.id task.status toStatus)] relations := by
      have hNone : completedIn [.task (.taskStatusChanged task.id task.status toStatus)] = [] := by
        cases toStatus <;> first | rfl | exact absurd rfl hOther
      exact ⟨hNone.symm ▸ .nil, fun edge hEdge _ => .inl hEdge⟩
    exact ((hMoved.append (.of_idle closureEvents_idle)).append (.of_idle .nil)).append
      (.of_idle (closeTaskDocuments_idle task.id toStatus))

theorem completeTask_completesFree {note : Option CompletionNote} :
    Ensures (completeTask db env actor id note) relations (CompletesFree db relations) := by
  refine .compute requireTask_row fun task ⟨hId, _⟩ => ?_
  subst hId
  exact .check fun _ => .check fun _ => .read (.compute (fun _ h => ensure_eq_ok.mp h) fun _ hFree =>
    .bind (releaseDownstream_ensures task.id) fun released after ⟨_, hRows, hStill⟩ =>
      .pure (completesFree_of_done hFree (.cons rfl (.cons rfl .nil)) (closeTaskDocuments_idle task.id .done)
        hRows hStill))

theorem setStatus_completesFree {comment : Option TransitionComment} :
    Ensures (setStatus db env actor id status comment) relations (CompletesFree db relations) := by
  refine .check fun task => .check fun comment =>
    .bind (.check fun _ => statusTransitionEvents_completesFree) fun events after hEvents => ?_
  cases comment with
  | none => exact .pure hEvents
  | some body =>
    exact .ite (fun _ => .pure hEvents) fun _ => .pure (hEvents.append (.of_idle (.cons rfl (.cons rfl .nil))))

theorem bulk_completesFree {tasks : List Task} :
    Ensures (Stateful.collect (fun task => emitStatusTransitionEvents db task toStatus actor now) tasks) relations
      (CompletesFree db relations) := by
  intro events after h
  induction tasks generalizing relations events with
  | nil =>
    obtain ⟨rfl, rfl⟩ := Stateful.collect_nil.mp h
    exact .of_idle .nil
  | cons task rest ih =>
    obtain ⟨first, middle, later, hRun, hLater, rfl⟩ := Stateful.collect_cons.mp h
    have hFirst : Ensures (emitStatusTransitionEvents db task toStatus actor now) relations
        (CompletesFree db relations) := .check fun _ => statusTransitionEvents_completesFree
    exact (hFirst first middle hRun).append (ih later hLater)

theorem advancePipelineEvents_completesFree {position : PipelinePosition} :
    Ensures (advancePipelineEvents db env actor task position) relations (CompletesFree db relations) := by
  refine .check fun _ => .bind statusTransitionEvents_completesFree fun moved after hMoved => .pure ?_
  have hPosition : CompletesFree db relations [positionEvent task.id position] relations := .of_idle (.cons rfl .nil)
  exact hPosition.append hMoved

theorem closePipelineStage_completesFree {stageIndex : Nat} {instanceName : String} {next : Option PipelinePosition} :
    Ensures (closePipelineStage db env actor id stageIndex instanceName next) relations
      (CompletesFree db relations) := by
  refine .check fun task => .check fun position => .check fun _ => .check fun _ => .check fun closed => ?_
  obtain ⟨fanIn, closed⟩ := closed
  dsimp only
  split
  · exact .pure (.of_idle .nil)
  · refine .bind advancePipelineEvents_completesFree fun moved after hMoved => .pure ?_
    have hPosition : CompletesFree db relations [positionEvent id closed] relations := .of_idle (.cons rfl .nil)
    exact hPosition.append hMoved
  · exact .pure (.of_idle (.cons rfl .nil))

theorem buildEvents_completesFree {command : TaskCommand} (hTakesIn : (Command.task command).takesIn = false) :
    Ensures (buildEvents config db env actor command) relations fun events _ =>
      FreeInTurn db relations (completedIn events) := by
  have hIdle : ∀ {events : List Event}, Idle events → FreeInTurn db relations (completedIn events) := by
    intro events h
    rw [completedIn_eq_nil h]
    exact .nil
  cases command with
  | createTask | splitTask => cases hTakesIn
  | updateTask id patch =>
    refine .lift fun events hOk => hIdle ?_
    exact Outcome.Yields.andThen (fun _ _ => .andThen fun _ _ => .andThen fun _ _ => .andThen fun _ _ =>
      .andThen fun _ _ => .andThen fun _ _ => .pure (.cons rfl .nil)) events hOk
  | setPriority id priority =>
    refine .lift fun events hOk => hIdle ?_
    exact Outcome.Yields.andThen (fun _ _ => .ite (fun _ => .pure .nil) fun _ => .pure (.cons rfl .nil)) events hOk
  | deleteTask id =>
    refine .mono (Ensures.check fun _ => .check fun _ => .read (.bind (unlink_ensures _)
      fun unlinked after ⟨hUnlinked, _⟩ => .pure ?_)) fun events after h => h
    have hNone : ∀ tasks : List TaskId, completedIn (tasks.map fun taskId =>
        Event.task (.taskUnblocked taskId id env.now)) = [] := by
      intro tasks
      rw [completedIn, filterMap_map]
      exact filterMap_eq_nil_iff.mpr fun _ _ => rfl
    have hPlans : Idle ((PlanRepo.listPlansForTask db id).map fun plan =>
        Event.plan (.planTaskRemoved plan.id id)) := .map fun _ => rfl
    rw [completedIn_append, completedIn_append, completedIn_append, completedIn_eq_nil hUnlinked, hNone,
      completedIn_eq_nil hPlans]
    exact .nil
  | completeTask id completionNote => exact .mono completeTask_completesFree fun _ _ h => h.free
  | setStatus id status force reason comment => exact .mono setStatus_completesFree fun _ _ h => h.free
  | advancePipeline id position =>
    refine .check fun _ => .check fun task => .ite (fun _ => .pure (hIdle .nil)) fun _ => ?_
    split
    · exact .lift (.error _)
    · exact .mono advancePipelineEvents_completesFree fun _ _ h => h.free
  | closePipelineStage id stageIndex instanceName next =>
    exact .mono closePipelineStage_completesFree fun _ _ h => h.free
  | bulkSetStatus ids status =>
    exact .check fun _ => .check fun _ => .mono bulk_completesFree fun _ _ h => h.free

end TaskCommands

namespace Handler

open Server

variable {config : Config} {db : Database} {env : Env} {caller : Caller} {command : Command} {claimed : Actor}
  {batch : List Event} {relations : Relations} {trail : GateStage.Trail} {persisted : List EventEnvelope}
  {appended : Database}

theorem completedIn_authenticated {events : List Event} :
    completedIn (events.map (authenticated caller)) = completedIn events := by
  rw [completedIn, filterMap_map]
  refine filterMap_congr fun event _ => ?_
  dsimp only [Function.comp]
  unfold authenticated
  split <;> rfl

theorem Accepted.completedIn_eq
    (h : Accepted config env caller command claimed db batch relations trail persisted appended)
    (hTakesIn : command.takesIn = false) : completedIn (persisted.map EventEnvelope.payload) = completedIn batch := by
  obtain ⟨first, last, hPayloads, hFirst, hLast⟩ := h.surrounded hTakesIn
  have hFirstIdle : Idle first := fun event hMem => isIdle_of_isAudit (hFirst event hMem)
  have hLastIdle : Idle last := fun event hMem => (hLast event hMem).elim isIdle_of_isAudit isIdle_of_isRelease
  rw [hPayloads, completedIn_append, completedIn_append, completedIn_eq_nil hFirstIdle, completedIn_eq_nil hLastIdle,
    append_nil, nil_append]

theorem Accepted.freeInTurn
    (h : Accepted config env caller command claimed db batch relations trail persisted appended)
    (hTakesIn : command.takesIn = false) : FreeInTurn db db.relations (completedIn batch) := by
  cases hAbout : command.isAboutTasks with
  | false =>
    obtain ⟨warnings, hBuilt⟩ := h.built
    have hStill : NoTransitions batch := draft_noTransitions hAbout _ _ _ hBuilt
    rw [completedIn_of_noTransitions hStill]
    exact .nil
  | true =>
    cases command with
    | task command =>
      obtain ⟨built, hBuilt, rfl⟩ := h.of_task
      have hPlans : ∀ plans : List PlanEvent, Idle (plans.map Event.plan) := fun _ => .map fun _ => rfl
      rw [completedIn_append, completedIn_authenticated, completedIn_eq_nil (hPlans _), append_nil]
      exact TaskCommands.buildEvents_completesFree hTakesIn _ _ hBuilt
    | _ => cases hAbout

end Handler

namespace Server

open Handler (Accepted builderEnv)

variable {config : Config} {db : Database} {call : Call}

/-- The payloads of what the log got since then. -/
def recordedSince (before after : Database) : List Event :=
  (after.events.rows.drop before.events.rows.length).map EventEnvelope.payload

/-- A command completes an open task only when each of its blockers is not stored, is
done, or was completed before it by the command. -/
def CompletesOnlyFree (config : Config) (db : Database) : Call → Prop
  | .command env caller command claimed => ∀ id status, db.statusOf id = some status → status ≠ .done →
      (serve config db (.command env caller command claimed)).statusOf id = some .done →
      ∀ edge ∈ db.relations, edge.target = id → edge.kind = .blocks →
        (∀ status, db.statusOf edge.source = some status → status = .done) ∨
          ∃ first rest, completedIn (recordedSince db (serve config db (.command env caller command claimed))) =
            first ++ id :: rest ∧ edge.source ∈ first
  | _ => True

/-- A task that a command writes to done directly is done already, or has no active
blocker. -/
def CompletesDirectlyFree (db : Database) : Call → Prop
  | .command env _ command _ => ∀ id status, db.statusOf id = some status → status ≠ .done →
      command.WritesDirectly db (builderEnv env) id .done → ¬Blocked db id
  | _ => True

theorem completesOnlyFree_of_directlyFree (h : CompletesDirectlyFree db call) : CompletesOnlyFree config db call := by
  cases call with
  | command env caller command claimed =>
    intro id status hBefore hOpen hAfter edge hEdge hTarget hKind
    have hHandle : Handler.handleWithRunOwner config env caller command claimed db =
        (_, serve config db (.command env caller command claimed)) := rfl
    have hChanged : db.statusOf id ≠ some .done := by
      rw [hBefore]
      exact fun hSame => hOpen (Option.some.inj hSame)
    obtain ⟨batch, relations, trail, persisted, appended, hAccepted, ⟨later, hLog⟩, event, hMem, hWrites⟩ :=
      Handler.status_of_handle hHandle hAfter hChanged
    rcases hAccepted.moves hMem hWrites with hDirect | ⟨fromStatus, hMoved⟩
    · refine .inl fun source hSource => ?_
      by_contra hNotDone
      exact h id status hBefore hOpen hDirect (blocked_iff.mpr ⟨edge, hEdge, hTarget, hKind, source, hSource, hNotDone⟩)
    · have hPlain : command.IsPlain := hAccepted.sanctioned _ hMoved
      have hCompleted : id ∈ completedIn batch := mem_filterMap.mpr ⟨_, hMoved, rfl⟩
      obtain ⟨first, rest, hSplit⟩ := append_of_mem hCompleted
      refine (hAccepted.freeInTurn hPlain.1 first id rest hSplit edge hEdge hTarget hKind).imp_right fun hEarlier => ?_
      refine ⟨first, rest ++ completedIn (later.map EventEnvelope.payload), ?_, hEarlier⟩
      rw [recordedSince, hLog, append_assoc, drop_left, map_append, completedIn_append,
        hAccepted.completedIn_eq hPlain.1, hSplit, append_assoc, cons_append]
  | _ => exact trivial

/-- In a run whose commands write done directly only into tasks that are done or have
no active blocker, no blocked task is completed. -/
theorem completes_only_free {calls : List Call} (hMeets : Meets config CompletesDirectlyFree Database.empty calls) :
    Meets config (CompletesOnlyFree config) Database.empty calls :=
  Meets.imp (fun _ _ => completesOnlyFree_of_directlyFree) hMeets

private def completedPair : List Call := commands [
  .task (.createTask { NewTask.new "first" with id := some ⟨7⟩ }),
  .task (.createTask { NewTask.new "second" with id := some ⟨8⟩ }),
  .relation (.linkTasks ⟨7⟩ ⟨8⟩ .blocks),
  .task (.bulkSetStatus [⟨7⟩, ⟨8⟩] .done)]

theorem completes_only_free_pair : Meets engineConfig (CompletesOnlyFree engineConfig) Database.empty completedPair := by
  refine completes_only_free ⟨?_, ?_, ?_, ?_, trivial⟩
  · rintro id status _ _ (hPatches | ⟨intake, hMem, _, _, hStatus⟩)
    · exact absurd hPatches not_false
    · cases mem_singleton.mp hMem
      cases hStatus
  · rintro id status _ _ (hPatches | ⟨intake, hMem, _, _, hStatus⟩)
    · exact absurd hPatches not_false
    · cases mem_singleton.mp hMem
      cases hStatus
  · rintro id status _ _ (hPatches | ⟨intake, hMem, _⟩)
    · exact absurd hPatches not_false
    · exact absurd hMem not_mem_nil
  · rintro id status _ _ (hPatches | ⟨intake, hMem, _⟩)
    · exact absurd hPatches not_false
    · exact absurd hMem not_mem_nil

/-- Two tasks, of which the first blocks the second. -/
private def waitingPair : List Call := completedPair.take 3

private def patchedBlocked : Call := .command (nthEnv 3) .internal
  (.task (.updateTask ⟨8⟩ { TaskPatch.none with status := some .done })) .anyUser

theorem patched_task_completed_blocked :
    ¬CompletesOnlyFree engineConfig (run engineConfig waitingPair) patchedBlocked := by
  intro hFree
  have hBefore : (run engineConfig waitingPair).statusOf ⟨8⟩ = some .inbox := by decide +kernel
  have hBlocker : (run engineConfig waitingPair).statusOf ⟨7⟩ = some .inbox := by decide +kernel
  have hAfter : (serve engineConfig (run engineConfig waitingPair) patchedBlocked).statusOf ⟨8⟩ = some .done := by
    decide +kernel
  have hNone : completedIn (recordedSince (run engineConfig waitingPair)
      (serve engineConfig (run engineConfig waitingPair) patchedBlocked)) = [] := by
    decide +kernel
  have hEdge : ∃ edge ∈ (run engineConfig waitingPair).relations.rows,
      edge.source = ⟨7⟩ ∧ edge.target = ⟨8⟩ ∧ edge.kind = .blocks := by
    decide +kernel
  obtain ⟨edge, hMem, hSource, hTarget, hKind⟩ := hEdge
  rcases hFree ⟨8⟩ .inbox hBefore (by nofun) hAfter edge (KeyedTable.mem_rows.mp hMem) hTarget hKind with
    hDone | ⟨first, rest, hSplit, _⟩
  · cases hDone .inbox (hSource ▸ hBlocker)
  · have hEmpty : first ++ ⟨8⟩ :: rest = [] := hSplit.symm.trans hNone
    cases first <;> cases hEmpty

end Server
end Daruma
