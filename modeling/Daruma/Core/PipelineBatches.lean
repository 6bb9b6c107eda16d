import Daruma.Core.PipelineSteps
import Daruma.Core.PlanTriggers

/-! What commands record about pipelines. The two commands of pipelines record the
positions that they reach and the transition that follows from the last of them; every
other command writes only what a direct write may. -/
namespace Daruma

open Outcome
open TaskRepo (pipelinePosition)
open Stateful (Yields)

def Event.IsDirect (db : Database) : Event → Prop
  | .task (.taskUpdated id patch) => patch.pipelinePosition = none ∧ ∀ status, patch.status = some status →
      directStatusWriteAllowed (pipelinePosition db id) status = true ∨ db.statusOf id = some status
  | .task (.taskStatusChanged id _ toStatus) =>
    directStatusWriteAllowed (pipelinePosition db id) toStatus = true
  | .task (.taskCompleted id ..) => directStatusWriteAllowed (pipelinePosition db id) .done = true
  | _ => True

abbrev AllDirect (db : Database) (events : List Event) : Prop := Everywhere (Event.IsDirect db) events

def Command.amendsPosition : Command → Bool
  | .plan (.amendPlanTask _ _ patch) => patch.pipelinePosition.isSome
  | _ => false

section

variable {config : Config} {db : Database} {env : Env} {actor : Actor}

namespace TaskCommands

variable {now : Timestamp}

variable {id : TaskId} {toStatus : Status} {task : Task} {events : List Event}

inductive Moves (task : Task) (toStatus : Status) : List Event → Prop where
  | stays (h : task.status = toStatus) : Moves task toStatus []
  | moved {rest : List Event} (hRest : Everywhere Event.Unplaced rest) :
      Moves task toStatus (.task (.taskStatusChanged task.id task.status toStatus) :: rest)

theorem statusTransitionEvents_moves :
    Yields (statusTransitionEvents db task toStatus actor now) (Moves task toStatus) :=
  statusTransitionEvents_rule .stays (fun _ => .moved) ⟨fun _ _ => rfl, fun _ => rfl⟩ ⟨fun _ _ => rfl, fun _ => rfl⟩
    (fun _ => ⟨fun _ _ => rfl, fun _ => rfl⟩) (fun _ _ _ => ⟨fun _ _ => rfl, fun _ => rfl⟩)
    fun _ _ _ _ => ⟨fun _ _ => rfl, fun _ => rfl⟩

end TaskCommands

theorem MayRecord.isDirect {links : Bool} {command : Command} {event : Event} (h : MayRecord db env links command event)
    (hPipeline : command.pipelineTask = none) (hAmends : command.amendsPosition = false) : event.IsDirect db := by
  cases h with
  | patched _ hPlace hWrite =>
    refine ⟨hPlace, fun status hStatus => (hWrite status hStatus).imp_right ?_⟩
    rintro ⟨task, hFound, rfl⟩
    rw [Database.statusOf, hFound, Option.map_some]
  | placed _ hIs => cases hIs.symm.trans hPipeline
  | inherited => exact ⟨rfl, fun _ hStatus => by cases hStatus⟩
  | amended hNone => exact ⟨Option.isSome_eq_false_iff.mp hAmends |> Option.isNone_iff_eq_none.mp,
      fun status hStatus => by cases hNone.symm.trans hStatus⟩
  | moved _ hDirect => exact hDirect hPipeline
  | completed hDirect => exact hDirect
  | _ => exact trivial

/-- How the position of a task goes on: the task is deleted, it enters a stage that no
open barrier keeps it from, or another instance reports its part of the stage closed. -/
inductive Follows : Option PipelinePosition → Option PipelinePosition → Prop where
  | deleted (before : Option PipelinePosition) : Follows before none
  | entered {before : Option PipelinePosition} {target : PipelinePosition} (hEmpty : target.closed = [])
      (hFanout : 1 ≤ target.fanout) (hLeaves : before.bind fanInBlocks = none) : Follows before (some target)
  | reported {current : PipelinePosition} {name : String} (hOpen : current.complete = false)
      (hNew : name ∉ current.closed) (hRoom : current.closed.length < current.fanout) :
      Follows (some current) (some { current with closed := current.closed ++ [name] })

/-- What a command of a pipeline records about its task: nothing, or the positions that
it reaches and the transition that follows from the last of them. -/
inductive PipelineBatch (db : Database) (id : TaskId) (events : List Event) : Prop where
  | idle (h : events = [])
  | placed (task : Task) (earlier : List PipelinePosition) (last : PipelinePosition) (moved : List Event)
      (hId : task.id = id) (hFound : db.tasks.find? id = some task) (hOpen : task.status ≠ .cancelled)
      (hEvents : events = (earlier ++ [last]).map (TaskCommands.positionEvent id) ++ moved)
      (hStages : List.IsChain Follows (pipelinePosition db id :: (earlier ++ [last]).map some))
      (hMoved : TaskCommands.Moves task (canonicalStatus last) moved ∨
        moved = [] ∧ ∃ current, pipelinePosition db id = some current ∧
          canonicalStatus last = canonicalStatus current)

theorem PipelinePosition.closeInstance_ok {current next : PipelinePosition} {name : String} {fanIn : FanIn}
    (h : current.closeInstance name = .ok (fanIn, next)) : (fanIn = .repeated ∧ next = current) ∨
      Follows (some current) (some next) ∧ canonicalStatus next = canonicalStatus current ∧
        (fanIn = .closed → next.fanInClosed = true) ∧ fanIn ≠ .repeated := by
  unfold closeInstance at h
  dsimp only at h
  split at h
  · cases h
  split at h
  · cases h
  rename_i hComplete
  split at h
  · cases h
    exact .inl ⟨rfl, rfl⟩
  rename_i hNew
  split at h
  · cases h
  rename_i hRoom
  have hOpen : current.complete = false := Bool.eq_false_iff.mpr hComplete
  have hLess : current.closed.length < current.fanout := by simpa [fanInClosed] using hRoom
  split at h
  · rename_i hFull
    cases h
    exact .inr ⟨.reported hOpen hNew hLess, rfl, fun _ => hFull, nofun⟩
  · cases h
    exact .inr ⟨.reported hOpen hNew hLess, rfl, nofun, nofun⟩

namespace TaskCommands

variable {position : PipelinePosition} {id : TaskId}

theorem validatePipelineTarget_ok :
    Yields (validatePipelineTarget position) fun _ => position.closed = [] ∧ 1 ≤ position.fanout := by
  refine .andThen fun _ hValid _ hEmpty => ⟨List.isEmpty_iff.mp (ensure_eq_ok.mp hEmpty), ?_⟩
  have hChecked : ∃ done, position.validate = .ok done := by
    unfold orValidation at hValid
    split at hValid
    · exact ⟨_, ‹_›⟩
    · cases hValid
  obtain ⟨_, hChecked⟩ := hChecked
  unfold PipelinePosition.validate at hChecked
  dsimp only at hChecked
  split at hChecked
  · cases hChecked
  split at hChecked
  · cases hChecked
  split at hChecked
  · cases hChecked
  rename_i hFanout
  simp only [Bool.or_eq_true, decide_eq_true_eq, not_or] at hFanout
  omega

theorem pipelineTask_open : Yields (pipelineTask db id) fun task =>
    task.id = id ∧ db.tasks.find? id = some task ∧ task.status ≠ .cancelled := by
  refine .bind requireTask_row fun task hRow => .andThen fun _ hOpen => .pure ⟨hRow.1, ?_, ?_⟩
  · exact hRow.1 ▸ hRow.2
  · exact of_decide_eq_true (ensure_eq_ok.mp hOpen)

theorem advancePipelineEvents_placed {task : Task} :
    Yields (advancePipelineEvents db env actor task position) fun events =>
      (position.closed = [] ∧ 1 ≤ position.fanout) ∧ ∃ moved, events = positionEvent task.id position :: moved ∧
        Moves task (canonicalStatus position) moved :=
  .bind (.lift validatePipelineTarget_ok) fun _ hTarget => .bind statusTransitionEvents_moves fun moved hMoved =>
    .pure ⟨hTarget, moved, rfl, hMoved⟩

theorem advancePipeline_batch : Yields (advancePipeline db env actor id position) (PipelineBatch db id) := by
  refine .andThen fun _ => .bind (.lift pipelineTask_open) fun task hTask => ?_
  obtain ⟨rfl, hFound, hOpen⟩ := hTask
  refine .ite (fun _ => .pure (.idle rfl)) fun _ => ?_
  split
  · exact .lift (.error _)
  · rename_i hLeaves
    refine .mono advancePipelineEvents_placed fun events hPlaced => ?_
    obtain ⟨⟨hEmpty, hFanout⟩, moved, hEvents, hMoved⟩ := hPlaced
    refine .placed task [] position moved rfl hFound hOpen hEvents ?_ (.inl hMoved)
    exact .cons_cons (.entered hEmpty hFanout hLeaves) (.singleton _)

theorem closePipelineStage_batch {stageIndex : Nat} {instanceName : String} {next : Option PipelinePosition} :
    Stateful.Yields (closePipelineStage db env actor id stageIndex instanceName next) (PipelineBatch db id) := by
  refine .bind (.lift pipelineTask_open) fun task hTask => ?_
  obtain ⟨rfl, hFound, hOpen⟩ := hTask
  have hCurrent : Yields (okOr (pipelinePosition db task.id)
      (CoreError.conflict s!"pipeline_unmanaged: task {task.id} has no pipeline position")) fun position =>
      pipelinePosition db task.id = some position := fun _ hOk => okOr_eq_ok.mp hOk
  refine .bind (.lift hCurrent) fun current hPosition => .andThen fun _ => .andThen fun _ => ?_
  have hClosed : Yields (orConflict (current.closeInstance instanceName)) fun closed =>
      current.closeInstance instanceName = .ok closed := by
    intro closed hOk
    unfold orConflict at hOk
    split at hOk
    · cases hOk
      assumption
    · cases hOk
  refine .bind (.lift hClosed) fun closed hReport => ?_
  obtain ⟨fanIn, closed⟩ := closed
  rcases PipelinePosition.closeInstance_ok hReport with ⟨rfl, rfl⟩ | ⟨hFollows, hCanonical, hFull, hNew⟩
  · exact .pure (.idle rfl)
  have hReported : PipelineBatch db task.id [positionEvent task.id closed] := by
    refine .placed task [] closed [] rfl hFound hOpen rfl ?_ (.inr ⟨rfl, current, hPosition, hCanonical⟩)
    rw [hPosition]
    exact .cons_cons hFollows (.singleton _)
  dsimp only
  split
  · exact absurd rfl hNew
  · refine .bind advancePipelineEvents_placed fun events hPlaced => .pure ?_
    obtain ⟨⟨hEmpty, hFanout⟩, moved, rfl, hMoved⟩ := hPlaced
    refine .placed task [closed] _ moved rfl hFound hOpen rfl ?_ (.inl hMoved)
    rw [hPosition]
    refine .cons_cons hFollows (.cons_cons (.entered hEmpty hFanout ?_) (.singleton _))
    rw [Option.bind_some, fanInBlocks, hFull rfl, Bool.or_true]
    rfl
  · exact .pure hReported

theorem buildEvents_pipeline {command : TaskCommand} (hPipeline : (Command.task command).pipelineTask = some id) :
    Yields (buildEvents config db env actor command) (PipelineBatch db id) := by
  cases command with
  | advancePipeline =>
    cases hPipeline
    exact advancePipeline_batch
  | closePipelineStage =>
    cases hPipeline
    exact closePipelineStage_batch
  | _ => cases hPipeline

end TaskCommands
end

namespace Handler

variable {config : Config} {db : Database} {env : Env} {caller : Caller} {actor : Actor} {command : Command}

variable {events batch : List Event} {id : TaskId} {warnings : List MutationWarning} {before relations : Relations}

theorem Unplaced.authenticated (h : Everywhere Event.Unplaced events) :
    Everywhere Event.Unplaced (events.map (authenticated caller)) := by
  refine List.forall_mem_map.mpr fun event hMem => ?_
  rcases authenticated_cases caller event with hIs | ⟨_, _, rfl, hIs⟩
  · rw [hIs]
    exact h event hMem
  · rw [hIs]
    exact ⟨fun _ _ => rfl, fun _ => rfl⟩

theorem Moves.authenticated {task : Task} {toStatus : Status} (h : TaskCommands.Moves task toStatus events) :
    TaskCommands.Moves task toStatus (events.map (authenticated caller)) := by
  cases h with
  | stays hSame => exact .stays hSame
  | moved hRest => exact .moved (Unplaced.authenticated hRest)

theorem PipelineBatch.authenticated (h : PipelineBatch db id events) :
    PipelineBatch db id (events.map (authenticated caller)) := by
  cases h with
  | idle h =>
    rw [h]
    exact .idle rfl
  | placed task earlier last moved hId hFound hOpen hEvents hStages hMoved =>
    refine .placed task earlier last (moved.map (Handler.authenticated caller)) hId hFound hOpen ?_ hStages ?_
    · rw [hEvents, List.map_append, List.map_map]
      rfl
    · refine hMoved.imp Moves.authenticated fun ⟨hNone, hCanonical⟩ => ⟨?_, hCanonical⟩
      rw [hNone, List.map_nil]

theorem draft_direct (h : draft config db env caller actor command before = (.ok (batch, warnings), relations))
    (hPipeline : command.pipelineTask = none) (hAmends : command.amendsPosition = false) : AllDirect db batch :=
  draft_rule (fun _ hRecords => hRecords.isDirect hPipeline hAmends) (fun _ _ => trivial) _ _ _ h

theorem draft_pipeline (h : draft config db env caller actor command before = (.ok (batch, warnings), relations))
    (hPipeline : command.pipelineTask = some id) : ∃ events closures, PipelineBatch db id events ∧
      batch = events ++ closures ∧ Everywhere Event.Unplaced closures := by
  obtain ⟨events, hEvents, rfl⟩ := draft_unreconciled h
  refine ⟨events, _, ?_, rfl, .map fun _ => ⟨fun _ _ => rfl, fun _ => rfl⟩⟩
  cases command with
  | task command =>
    have hAll : Yields (unreconciled config db env caller actor (.task command)) (PipelineBatch db id) :=
      unreconciled_unsourced rfl (.mono (TaskCommands.buildEvents_pipeline hPipeline) fun _ h => PipelineBatch.authenticated h)
    exact hAll _ _ _ hEvents
  | _ => cases hPipeline

end Handler
end Daruma
