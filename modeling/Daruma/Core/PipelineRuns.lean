import Daruma.Core.PipelineStages

/-! Tasks in pipelines over whole runs: their statuses follow their positions, and their
positions keep to their stages. -/
namespace Daruma

open List
open TaskRepo (pipelinePosition KeysDistinct)
open Database (placementOf_position placementOf empty)
open Event (placing placement Unplaced)
open EventEnvelope (payload)

open Handler (Accepted builderEnv)

def InStep (status : Status) (position : PipelinePosition) : Prop :=
  status = .cancelled ∨ status = canonicalStatus position

def Database.PipelinesInStep (db : Database) : Prop :=
  ∀ id status position, db.placementOf id = some (status, some position) → InStep status position

/-- A row as direct writes leave it: `current` is the position that it has. -/
structure Kept (db : Database) (id : TaskId) (current : Option PipelinePosition) (row : Option Placement) : Prop where
  position : row.bind Prod.snd = current
  kept : row = none ∨ current = pipelinePosition db id
  inStep : ∀ status position, row = some (status, some position) → InStep status position

section

variable {db : Database} {id : TaskId} {current : Option PipelinePosition} {row : Option Placement} {event : Event}

theorem Kept.start (hInStep : db.PipelinesInStep) : Kept db id (pipelinePosition db id) (db.placementOf id) :=
  ⟨placementOf_position, .inr rfl, hInStep id⟩

theorem Kept.positionOf (h : Kept db id current row) {status : Status} {position : PipelinePosition}
    (hRow : row = some (status, some position)) : pipelinePosition db id = some position := by
  have hCurrent : some position = current := by
    rw [← h.position, hRow]
    rfl
  rcases h.kept with hNone | hKept
  · cases hNone.symm.trans hRow
  · exact hKept.symm.trans hCurrent.symm

theorem Kept.created (h : Kept db id current row) {new : NewTask}
    (hNew : new.id = some id → pipelinePosition db id = none) : Kept db id current (new.placement id row) := by
  unfold NewTask.placement
  split
  · rename_i hIs
    have hNone : row.bind Prod.snd = none := by
      rcases h.kept with rfl | hKept
      · rfl
      · rw [h.position, hKept, hNew hIs]
    refine ⟨h.position, ?_, fun status position hRow => ?_⟩
    · right
      rw [← h.position, hNone, hNew hIs]
    · rw [hNone] at hRow
      cases hRow
  · exact h

theorem Kept.wrote (h : Kept db id current row) {toStatus : Status}
    (hAllowed : directStatusWriteAllowed (pipelinePosition db id) toStatus = true) :
    Kept db id current (row.map fun row => (toStatus, row.2)) := by
  refine ⟨?_, ?_, fun status position hRow => ?_⟩
  · rw [← h.position]
    cases row <;> rfl
  · exact h.kept.imp_left fun hNone => Option.map_eq_none_iff.mpr hNone
  · obtain ⟨⟨earlier, stays⟩, hOld, hIs⟩ := Option.map_eq_some_iff.mp hRow
    cases hIs
    rw [h.positionOf hOld] at hAllowed
    exact .inl (by simpa [directStatusWriteAllowed] using hAllowed)

theorem Kept.step (h : Kept db id current row) (hInStep : db.PipelinesInStep) (hDirect : event.IsDirect db)
    (hNew : ∀ recorded, event = .task recorded → ∀ new ∈ recorded.created, new.id = some id →
      pipelinePosition db id = none) :
    Kept db id ((event.placing id).getD current) (event.placement id row) := by
  cases event with
  | task event =>
    cases event with
    | taskCreated new => exact h.created (hNew _ rfl new (mem_singleton_self new))
    | taskSplitGenerated parent subtasks =>
      have hAll := hNew _ rfl
      change Kept db id current (subtasks.foldl (fun row new => new.placement id row) row)
      have hFold : ∀ (list : List NewTask) row, Kept db id current row →
          (∀ new ∈ list, new.id = some id → pipelinePosition db id = none) →
          Kept db id current (list.foldl (fun row new => new.placement id row) row) := by
        intro list
        induction list with
        | nil => exact fun _ hKept _ => hKept
        | cons new rest ih =>
          intro row hKept hList
          obtain ⟨hFirst, hRest⟩ := forall_mem_cons.mp hList
          exact ih _ (hKept.created hFirst) hRest
      exact hFold subtasks row h hAll
    | taskUpdated taskId patch =>
      obtain ⟨hNone, hStatus⟩ := hDirect
      simp only [placing, placement, TaskEvent.placement, hNone, Option.map_none, ite_self,
        Option.getD_none, Option.none_or]
      split
      · rename_i hIs
        subst hIs
        cases hGiven : patch.status with
        | none =>
          refine ⟨?_, h.kept.imp_left fun hRow => Option.map_eq_none_iff.mpr hRow, fun status position hRow => ?_⟩
          · rw [← h.position]
            cases row <;> rfl
          · obtain ⟨⟨earlier, stays⟩, hOld, hIs⟩ := Option.map_eq_some_iff.mp hRow
            cases hIs
            exact h.inStep _ _ hOld
        | some given =>
          rcases hStatus given hGiven with hAllowed | hSame
          · exact h.wrote hAllowed
          · refine ⟨?_, h.kept.imp_left fun hRow => Option.map_eq_none_iff.mpr hRow, fun status position hRow => ?_⟩
            · rw [← h.position]
              cases row <;> rfl
            · obtain ⟨⟨earlier, stays⟩, hOld, hIs⟩ := Option.map_eq_some_iff.mp hRow
              cases hIs
              -- the task has the status already, in step with its position
              have hPosition := h.positionOf hOld
              obtain ⟨⟨stored, held⟩, hStored, hIs⟩ := Option.map_eq_some_iff.mp
                (Database.placementOf_status.trans hSame)
              rw [← placementOf_position, hStored] at hPosition
              cases hIs
              cases hPosition
              exact hInStep _ _ _ hStored
      · exact h
    | taskStatusChanged taskId fromStatus toStatus =>
      simp only [placing, placement, TaskEvent.placement, Option.getD_none]
      split
      · rename_i hIs
        subst hIs
        exact h.wrote hDirect
      · exact h
    | taskCompleted taskId =>
      simp only [placing, placement, TaskEvent.placement, Option.getD_none]
      split
      · rename_i hIs
        subst hIs
        exact h.wrote hDirect
      · exact h
    | taskDeleted taskId =>
      simp only [placing, placement, TaskEvent.placement]
      split
      · exact ⟨rfl, .inl rfl, fun _ _ hRow => by cases hRow⟩
      · exact h
    | _ => exact h
  | _ => exact h

theorem Kept.after {events : List Event} (h : Kept db id current row) (hInStep : db.PipelinesInStep)
    (hEach : ∀ event ∈ events, ∃ origin : Event, origin.IsDirect db ∧
      (∀ recorded, origin = .task recorded → ∀ new ∈ recorded.created, new.id = some id →
        pipelinePosition db id = none) ∧
      event.placing id = origin.placing id ∧ ∀ row, event.placement id row = origin.placement id row) :
    Kept db id ((placings events id).getLastD current) (placementAfter events id row) := by
  induction events generalizing current row with
  | nil => exact h
  | cons event rest ih =>
    obtain ⟨⟨origin, hDirect, hNew, hPlacing, hPlacement⟩, hRest⟩ := forall_mem_cons.mp hEach
    have hStep := h.step hInStep hDirect hNew
    rw [← hPlacing, ← hPlacement] at hStep
    rw [placementAfter_cons]
    refine cast ?_ (ih hStep hRest)
    unfold placings
    rw [filterMap_cons]
    cases event.placing id with
    | none => rfl
    | some placed => rw [getLastD_cons]; rfl

end

/-- What a call makes of the position of a task: the positions that it records follow
from the one before, the last of them is the new one, the status stays in step, and
only a command of pipelines gives a stored task another position. -/
structure PipelineStep (pipelineTask : Option TaskId) (db db' : Database) (id : TaskId)
    (recorded : List (Option PipelinePosition)) : Prop where
  stages : List.IsChain Follows (pipelinePosition db id :: recorded)
  position : pipelinePosition db' id = recorded.getLastD (pipelinePosition db id)
  inStep : ∀ status position, db'.placementOf id = some (status, some position) → InStep status position
  kept : pipelineTask ≠ some id →
    pipelinePosition db' id = pipelinePosition db id ∨ db'.placementOf id = none

variable {db' : Database}

theorem PipelineStep.of_same {pipelineTask : Option TaskId} {db : Database} {id : TaskId}
    (hInStep : db.PipelinesInStep) (hSame : db'.placementOf id = db.placementOf id) :
    PipelineStep pipelineTask db db' id [] := by
  have hPosition : pipelinePosition db' id = pipelinePosition db id := by
    rw [← placementOf_position, hSame, placementOf_position]
  refine ⟨.singleton _, hPosition, fun status position hRow => ?_, fun _ => .inl hPosition⟩
  exact hInStep id status position (hSame ▸ hRow)

theorem PipelineStep.congr {pipelineTask : Option TaskId} {db last : Database} {id : TaskId}
    {recorded : List (Option PipelinePosition)} (h : PipelineStep pipelineTask db db' id recorded)
    (hSame : last.placementOf id = db'.placementOf id) : PipelineStep pipelineTask db last id recorded := by
  have hPosition : pipelinePosition last id = pipelinePosition db' id := by
    rw [← placementOf_position, hSame, placementOf_position]
  refine ⟨h.stages, hPosition.trans h.position, fun status position hRow => ?_, fun hOther => ?_⟩
  · exact h.inStep status position (hSame ▸ hRow)
  · rw [hPosition, hSame]
    exact h.kept hOther

theorem isChain_deleted {before : Option PipelinePosition} {history : List (Option PipelinePosition)}
    (h : ∀ placed ∈ history, placed = none) : List.IsChain Follows (before :: history) := by
  induction history generalizing before with
  | nil => exact .singleton _
  | cons first rest ih =>
    obtain ⟨rfl, hRest⟩ := forall_mem_cons.mp h
    exact .cons_cons (.deleted before) (ih hRest)

namespace Handler

variable {config : Config} {db : Database} {env : Env} {caller : Caller} {claimed : Actor} {command : Command}
  {batch : List Event} {relations : Relations} {trail : GateStage.Trail} {persisted : List EventEnvelope}
  {appended applied : Database} {outcome : Except CoreError Unit} {id : TaskId}

variable {f : Event → Event} {task : Task} {toStatus : Status} {events : List Event}

theorem relinking_placement (hRelinking : Relinking f) (event : Event) (id : TaskId)
    (row : Option Placement) : (f event).placement id row = event.placement id row :=
  hRelinking.reads (·.placement id row) (fun _ _ => rfl) event

theorem relinking_placing (hRelinking : Relinking f) (event : Event) (id : TaskId) :
    (f event).placing id = event.placing id :=
  hRelinking.reads (·.placing id) (fun _ _ => rfl) event

def SparesPipelines (db : Database) (env : Env) (command : Command) : Prop :=
  command.amendsPosition = false ∧ ∀ intake ∈ command.intakes (builderEnv env), intake.isNew db = true →
    pipelinePosition db intake.id = none

theorem Accepted.origin (h : Accepted config env caller command claimed db batch relations trail persisted appended)
    (hPipeline : command.pipelineTask = none) (hSpares : SparesPipelines db env command) (id : TaskId) :
    ∀ event ∈ persisted.map payload, ∃ origin : Event, origin.IsDirect db ∧
      (∀ recorded, origin = .task recorded → ∀ new ∈ recorded.created, new.id = some id →
        pipelinePosition db id = none) ∧
      event.placing id = origin.placing id ∧ (∀ row, event.placement id row = origin.placement id row) ∧
      (∀ taskId, origin = .task (.taskDeleted taskId) → command.IsPlain) := by
  obtain ⟨warnings, hDraft⟩ := h.built
  refine h.payload_rule (fun {f event} hRelinking hEvent => ?_) (fun event => ?_) fun agentId taskId claimId => ?_
  · refine ⟨event, draft_direct hDraft hPipeline hSpares.1 event hEvent, ?_, relinking_placing hRelinking event id,
      relinking_placement hRelinking event id, ?_⟩
    · have hSanctioned := h.sanctioned event hEvent
      have hCreates : ∀ new, command.Creates db (builderEnv env) new → new.id = some id →
          pipelinePosition db id = none := by
        rintro new ⟨intake, hIntake, hNew, hCreated⟩ hId
        rw [hCreated.id] at hId
        exact Option.some.inj hId ▸ hSpares.2 intake hIntake hNew
      rintro recorded rfl new hNew
      cases recorded with
      | taskCreated given =>
        rw [mem_singleton.mp hNew]
        exact hCreates given hSanctioned
      | taskSplitGenerated parent subtasks => exact hCreates new (hSanctioned new hNew)
      | _ => exact absurd hNew not_mem_nil
    · rintro taskId rfl
      exact h.sanctioned _ hEvent
  · refine ⟨.audit event, trivial, ?_, rfl, fun _ => rfl, ?_⟩
    · exact fun _ hTask => by cases hTask
    · exact fun _ hTask => by cases hTask
  · refine ⟨.claim (.agentReleased agentId taskId claimId), trivial, ?_, rfl, fun _ => rfl, ?_⟩
    · exact fun _ hTask => by cases hTask
    · exact fun _ hTask => by cases hTask

theorem Accepted.directStep
    (h : Accepted config env caller command claimed db batch relations trail persisted appended)
    (hPipeline : command.pipelineTask = none) (hSpares : SparesPipelines db env command)
    (hKeys : KeysDistinct db.tasks) (hInStep : db.PipelinesInStep)
    (hApplied : Projections.applyEvents (env.part 4) persisted appended = (outcome, applied)) :
    PipelineStep command.pipelineTask db applied id
      (if outcome = .ok () then placings (persisted.map payload) id else []) := by
  obtain ⟨first, left, hSplit, hAll, hEffect⟩ := Projections.applyEvents_placements hApplied h.namesCreated
  have hStart : appended.placementOf id = db.placementOf id := by
    rw [placementOf, h.tasks_eq, ← placementOf]
  have hOrigin : ∀ event ∈ first ++ left, ∃ origin : Event, origin.IsDirect db ∧ _ := fun event hMem =>
    h.origin hPipeline hSpares id event (hSplit ▸ hMem)
  have hKept : Kept db id ((placings first id).getLastD (pipelinePosition db id)) (applied.placementOf id) := by
    rw [hEffect id, hStart]
    refine (Kept.start hInStep).after hInStep fun event hMem => ?_
    obtain ⟨origin, hDirect, hNew, hPlacing, hPlacement, _⟩ := hOrigin event (mem_append_left left hMem)
    exact ⟨origin, hDirect, hNew, hPlacing, hPlacement⟩
  have hDeleted : ∀ event ∈ first ++ left, ∀ placed, event.placing id = some placed → placed = none ∧ command.IsPlain := by
    intro event hMem placed hPlaced
    obtain ⟨origin, hDirect, _, hPlacing, _, hPlain⟩ := hOrigin event hMem
    rw [hPlacing] at hPlaced
    cases origin with
    | task origin =>
      cases origin with
      | taskUpdated taskId patch =>
        simp [placing, hDirect.1] at hPlaced
      | taskDeleted taskId =>
        unfold placing at hPlaced
        dsimp only at hPlaced
        split at hPlaced
        · exact ⟨(Option.some.inj hPlaced).symm, hPlain taskId rfl⟩
        · cases hPlaced
      | _ => cases hPlaced
    | _ => cases hPlaced
  have hRecorded : placings first id =
      if outcome = .ok () then placings (persisted.map payload) id else [] := by
    split
    · rename_i hOk
      rw [hSplit, hAll hOk, append_nil]
    · rename_i hRefused
      -- a batch that was not projected to its end deletes nothing
      refine filterMap_eq_nil_iff.mpr fun event hMem => ?_
      cases hPlaced : event.placing id with
      | none => rfl
      | some placed =>
        have hPlain := (hDeleted event (mem_append_left left hMem) placed hPlaced).2
        exact absurd (h.projected hPlain hKeys hApplied).1 hRefused
  rw [← hRecorded]
  refine ⟨isChain_deleted fun placed hMem => ?_, ?_, hKept.inStep, fun _ => ?_⟩
  · obtain ⟨event, hEvent, hPlaced⟩ := mem_filterMap.mp hMem
    exact (hDeleted event (mem_append_left left hEvent) placed hPlaced).1
  · rw [← placementOf_position]
    exact hKept.position
  · rw [← placementOf_position, hKept.position]
    exact hKept.kept.symm

theorem placementAfter_positions (list : List PipelinePosition) (last : PipelinePosition) (id other : TaskId)
    (row : Option Placement) : placementAfter ((list ++ [last]).map (TaskCommands.positionEvent id)) other row =
      if id = other then row.map fun row => (row.1, some last) else row := by
  induction list generalizing row with
  | nil => rfl
  | cons position rest ih =>
    rw [cons_append, map_cons, placementAfter_cons, ih]
    change (if id = other then (if id = other then row.map fun row => (row.1, some position) else row).map _
      else if id = other then row.map fun row => (row.1, some position) else row) = _
    split
    · rw [Option.map_map]
      rfl
    · rfl

theorem placings_positions (list : List PipelinePosition) (id other : TaskId) :
    placings (list.map (TaskCommands.positionEvent id)) other = if id = other then list.map some else [] := by
  induction list with
  | nil => exact (ite_self _).symm
  | cons position rest ih =>
    have hPlacing : (TaskCommands.positionEvent id position).placing other =
        if id = other then some (some position) else none := rfl
    unfold placings at ih ⊢
    rw [map_cons, filterMap_cons, ih, hPlacing]
    by_cases hIs : id = other
    · rw [if_pos hIs, if_pos hIs, if_pos hIs]
      rfl
    · rw [if_neg hIs, if_neg hIs, if_neg hIs]

theorem Moves.placement (h : TaskCommands.Moves task toStatus events) (id : TaskId) {row : Option Placement} :
    placementAfter events id row = (if task.id = id then row.map fun row => (toStatus, row.2) else row) ∨
      (events = [] ∧ task.status = toStatus) := by
  cases h with
  | stays hSame => exact .inr ⟨rfl, hSame⟩
  | moved hRest =>
    left
    rw [placementAfter_cons, placementAfter_unplaced hRest]
    rfl

theorem Moves.placings (h : TaskCommands.Moves task toStatus events) (id : TaskId) : placings events id = [] := by
  cases h with
  | stays => rfl
  | moved hRest => exact (filterMap_cons_none rfl).trans (placings_unplaced hRest)

theorem PipelineBatch.step {taskId : TaskId} {events : List Event} (h : PipelineBatch db taskId events)
    (hInStep : db.PipelinesInStep) (hAfter : applied.placementOf id = placementAfter events id (db.placementOf id)) :
    PipelineStep (some taskId) db applied id (placings events id) := by
  cases h with
  | idle h =>
    rw [h] at hAfter ⊢
    exact .of_same hInStep hAfter
  | placed task earlier last moved hId hFound hOpen hEvents hStages hMoved =>
    have hMovedPlacings : placings moved id = [] := by
      rcases hMoved with hMoves | ⟨rfl, _⟩
      · exact Moves.placings hMoves id
      · rfl
    have hPlacings : placings events id = if taskId = id then (earlier ++ [last]).map some else [] := by
      rw [hEvents, placings_append, placings_positions, hMovedPlacings, append_nil]
    rw [hEvents, placementAfter_append, placementAfter_positions] at hAfter
    rw [hPlacings]
    by_cases hSame : taskId = id
    · subst hSame
      have hRow : db.placementOf taskId = some (task.status, task.pipelinePosition) := by
        rw [placementOf, TaskRepo.placementOf, hFound]
        rfl
      rw [if_pos rfl, hRow, Option.map_some] at hAfter
      have hLast : ∃ status, applied.placementOf taskId = some (status, some last) ∧
          (status = canonicalStatus last) := by
        rcases hMoved with hMoves | ⟨rfl, current, hCurrent, hCanonical⟩
        · rcases Moves.placement hMoves taskId with hMoved | ⟨rfl, hStays⟩
          · rw [hMoved, if_pos hId] at hAfter
            exact ⟨_, hAfter, rfl⟩
          · exact ⟨_, hAfter, hStays⟩
        · refine ⟨_, hAfter, ?_⟩
          rw [← placementOf_position, hRow] at hCurrent
          have hPosition : task.pipelinePosition = some current := hCurrent
          rw [hPosition] at hRow
          rw [hCanonical]
          exact (hInStep taskId _ _ hRow).resolve_left hOpen
      obtain ⟨status, hAfter, hStatus⟩ := hLast
      rw [if_pos rfl]
      refine ⟨hStages, ?_, fun other position hOther => ?_, fun hNot => absurd rfl hNot⟩
      · rw [← placementOf_position, hAfter, map_append, map_singleton,
          getLastD_concat]
        rfl
      · cases hAfter.symm.trans hOther
        exact .inr hStatus
    · rw [if_neg hSame]
      refine .of_same hInStep ?_
      rw [hAfter, if_neg hSame]
      rcases hMoved with hMoves | ⟨rfl, _⟩
      · rcases Moves.placement hMoves id with hMoved | ⟨rfl, _⟩
        · rw [hMoved, if_neg fun hIs => hSame (hId.symm.trans hIs)]
        · rfl
      · rfl

theorem Accepted.pipelineStep {taskId : TaskId}
    (h : Accepted config env caller command claimed db batch relations trail persisted appended)
    (hPipeline : command.pipelineTask = some taskId)
    (hKeys : KeysDistinct db.tasks) (hInStep : db.PipelinesInStep)
    (hApplied : Projections.applyEvents (env.part 4) persisted appended = (outcome, applied)) : outcome = .ok () ∧
      PipelineStep command.pipelineTask db applied id (placings (persisted.map payload) id) := by
  have hPlain : command.IsPlain := by
    cases command with
    | task command =>
      cases command with
      | advancePipeline | closePipelineStage => exact ⟨rfl, rfl⟩
      | _ => cases hPipeline
    | _ => cases hPipeline
  obtain ⟨hOk, _⟩ := h.projected hPlain hKeys hApplied
  obtain ⟨first, left, hSplit, hAll, hEffect⟩ := Projections.applyEvents_placements hApplied h.namesCreated
  obtain ⟨warnings, hDraft⟩ := h.built
  obtain ⟨events, closures, hBatch, rfl, hClosures⟩ := draft_pipeline hDraft hPipeline
  obtain ⟨before, behind, hPayloads, hBefore, hBehind⟩ := h.surrounded hPlain.1
  have hUnplaced : Everywhere Unplaced before := fun event hMem => unplaced_of_isAudit (hBefore event hMem)
  have hUnplaced' : Everywhere Unplaced behind := fun event hMem =>
    (hBehind event hMem).elim unplaced_of_isAudit unplaced_of_isRelease
  have hStart : appended.placementOf id = db.placementOf id := by
    rw [placementOf, h.tasks_eq, ← placementOf]
  have hAfter : applied.placementOf id = placementAfter events id (db.placementOf id) := by
    rw [hAll hOk, append_nil] at hSplit
    rw [hEffect id, ← hSplit, hPayloads, placementAfter_append, placementAfter_append, placementAfter_append,
      placementAfter_unplaced hUnplaced, placementAfter_unplaced hClosures, placementAfter_unplaced hUnplaced', hStart]
  have hPlacings : placings (persisted.map payload) id = placings events id := by
    rw [hPayloads, placings_append, placings_append, placings_append, placings_unplaced hUnplaced,
      placings_unplaced hClosures, placings_unplaced hUnplaced', append_nil, append_nil, nil_append]
  rw [hPlacings, hPipeline]
  exact ⟨hOk, PipelineBatch.step hBatch hInStep hAfter⟩

end Handler

namespace Server

open Handler (SparesPipelines)

variable {config : Config} {db : Database} {call : Call} {calls : List Call} {id : TaskId}

def answered (config : Config) (db : Database) : Call → List Event
  | .command env caller command claimed =>
    match (Handler.handleWithRunOwner config env caller command claimed db).1 with
    | .ok answer => answer.events.map payload
    | .error _ => []
  | _ => []

def reportedPositions (config : Config) (id : TaskId) : Database → List Call → List (Option PipelinePosition)
  | _, [] => []
  | db, call :: rest => placings (answered config db call) id ++ reportedPositions config id (serve config db call) rest

/-- A command amends no task with a position, and takes no task of a pipeline in. -/
def KeepsPipelines (db : Database) : Call → Prop
  | .command env _ command _ => SparesPipelines db env command
  | _ => True

def Call.pipelineTask : Call → Option TaskId
  | .command _ _ command _ => command.pipelineTask
  | _ => none

theorem serve_pipelineStep (hKeys : KeysDistinct db.tasks) (hInStep : db.PipelinesInStep)
    (hKeeps : KeepsPipelines db call) (id : TaskId) :
    PipelineStep (Call.pipelineTask call) db (serve config db call) id (placings (answered config db call) id) := by
  cases call with
  | command env caller command claimed =>
    change PipelineStep command.pipelineTask db (Handler.handleWithRunOwner config env caller command claimed db).2 id
      (placings (match (Handler.handleWithRunOwner config env caller command claimed db).1 with
        | .ok answer => answer.events.map payload
        | .error _ => []) id)
    cases hRun : Handler.handleWithRunOwner config env caller command claimed db with
    | mk outcome after =>
    cases Handler.handled hRun with
    | unlogged hOutcome _ hAudited =>
      obtain ⟨_, _, _, _, _, _, rfl⟩ := hAudited
      cases outcome with
      | error e => exact .of_same hInStep rfl
      | ok answer =>
        dsimp only
        rw [hOutcome answer rfl]
        exact .of_same hInStep rfl
    | stranded hAccepted hApplied =>
      cases hPipeline : command.pipelineTask with
      | some taskId =>
        obtain ⟨hOk, _⟩ := @Handler.Accepted.pipelineStep _ _ _ _ _ _ _ _ _ _ _ _ _ id _ hAccepted hPipeline hKeys
          hInStep hApplied
        cases hOk
      | none =>
        rw [← hPipeline]
        exact hAccepted.directStep hPipeline hKeeps hKeys hInStep hApplied
    | projected hAccepted hApplied hAnswer =>
      dsimp only
      rw [hAnswer]
      refine PipelineStep.congr ?_ (congrFun (AutoAppend.autoAppendLogs_placements _ _) id)
      cases hPipeline : command.pipelineTask with
      | some taskId =>
        rw [← hPipeline]
        exact (hAccepted.pipelineStep hPipeline hKeys hInStep hApplied).2
      | none =>
        rw [← hPipeline]
        exact hAccepted.directStep hPipeline hKeeps hKeys hInStep hApplied
  | _ => exact .of_same hInStep (congrFun (serve_placements rfl db) id)

theorem PipelinesInStep.empty : Database.PipelinesInStep empty := fun _ _ _ hRow => by cases hRow

theorem getLastD_append {Item : Type} (first second : List Item) (start : Item) :
    (first ++ second).getLastD start = second.getLastD (first.getLastD start) := by
  induction first generalizing start with
  | nil => rfl
  | cons item rest ih => rw [cons_append, getLastD_cons, getLastD_cons, ih]

theorem run_pipelines (hKeys : KeysDistinct db.tasks) (hInStep : db.PipelinesInStep)
    (hMeets : Meets config KeepsPipelines db calls) (id : TaskId) :
    List.IsChain Follows (pipelinePosition db id :: reportedPositions config id db calls) ∧
    pipelinePosition (calls.foldl (serve config) db) id =
      (reportedPositions config id db calls).getLastD (pipelinePosition db id) ∧
    (calls.foldl (serve config) db).PipelinesInStep := by
  induction calls generalizing db with
  | nil => exact ⟨.singleton _, rfl, hInStep⟩
  | cons call rest ih =>
    have hStep : ∀ id, PipelineStep (Call.pipelineTask call) db (serve config db call) id _ :=
      serve_pipelineStep hKeys hInStep hMeets.1
    obtain ⟨hStages, hPosition, hLater⟩ := ih (serve_keepKeys db call hKeys)
      (fun id status position hRow => (hStep id).inStep status position hRow) hMeets.2
    rw [(hStep id).position] at hStages hPosition
    refine ⟨isChain_append_last (hStep id).stages hStages, ?_, hLater⟩
    rw [foldl_cons, hPosition, reportedPositions]
    exact (getLastD_append _ _ _).symm

/-- A call gives no stored task another position, unless it is a report on its pipeline. -/
def KeepsPositions (config : Config) (db : Database) (call : Call) : Prop :=
  ∀ id, Call.pipelineTask call ≠ some id →
    pipelinePosition (serve config db call) id = pipelinePosition db id ∨
      (serve config db call).placementOf id = none

theorem run_keepsPositions (hKeys : KeysDistinct db.tasks) (hInStep : db.PipelinesInStep)
    (hMeets : Meets config KeepsPipelines db calls) : Meets config (KeepsPositions config) db calls := by
  induction calls generalizing db with
  | nil => exact trivial
  | cons call rest ih =>
    have hStep : ∀ id, PipelineStep (Call.pipelineTask call) db (serve config db call) id _ :=
      serve_pipelineStep hKeys hInStep hMeets.1
    exact ⟨fun id => (hStep id).kept, ih (serve_keepKeys db call hKeys)
      (fun id status position hRow => (hStep id).inStep status position hRow) hMeets.2⟩

/-- Pipelines over a whole run: the tasks in them have the statuses of their positions,
the positions that are reported keep to their stages and end at the stored one, and
only reports change them. -/
theorem pipelines_follow_positions {calls : List Call} (hMeets : Meets config KeepsPipelines Database.empty calls) :
    (run config calls).PipelinesInStep ∧ (∀ id, StagesInOrder (reportedPositions config id Database.empty calls) ∧
      TaskRepo.pipelinePosition (run config calls) id =
        (reportedPositions config id Database.empty calls).getLastD none) ∧
    Meets config (KeepsPositions config) Database.empty calls := by
  have hKeys : TaskRepo.KeysDistinct Database.empty.tasks := TaskRepo.KeysDistinct.empty
  refine ⟨?_, fun id => ?_, run_keepsPositions hKeys PipelinesInStep.empty hMeets⟩
  · exact (run_pipelines hKeys PipelinesInStep.empty hMeets ⟨0⟩).2.2
  · obtain ⟨hStages, hPosition, _⟩ := run_pipelines hKeys PipelinesInStep.empty hMeets id
    exact ⟨stagesInOrder hStages, hPosition⟩

private def stage (index fanout : Nat) : PipelinePosition := ⟨index, "coder", false, fanout, true, []⟩

private def reportedStage : List Call := commands [
  .task (.createTask { NewTask.new "task" with id := some ⟨7⟩ }),
  .task (.advancePipeline ⟨7⟩ (stage 0 2)),
  .task (.closePipelineStage ⟨7⟩ 0 "first" none),
  .task (.closePipelineStage ⟨7⟩ 0 "second" (some (stage 1 1)))]

theorem pipelines_follow_positions_reported : (run engineConfig reportedStage).statusOf ⟨7⟩ = some .inProgress ∧
    (reportedPositions engineConfig ⟨7⟩ Database.empty reportedStage).length = 4 ∧
    StagesInOrder (reportedPositions engineConfig ⟨7⟩ Database.empty reportedStage) := by
  refine ⟨by decide +kernel, by decide +kernel, ((pipelines_follow_positions ?_).2.1 ⟨7⟩).1⟩
  refine ⟨⟨rfl, fun intake hMem _ => ?_⟩, ?_⟩
  · cases mem_singleton.mp hMem
    rfl
  · exact ⟨⟨rfl, fun _ hMem => absurd hMem not_mem_nil⟩, ⟨rfl, fun _ hMem => absurd hMem not_mem_nil⟩,
      ⟨rfl, fun _ hMem => absurd hMem not_mem_nil⟩, trivial⟩

/-- A required stage of one instance that its caller leaves. -/
private def singleStage : List Call := commands [
  .task (.createTask { NewTask.new "task" with id := some ⟨7⟩ }),
  .task (.advancePipeline ⟨7⟩ (stage 0 1)),
  .task (.advancePipeline ⟨7⟩ (stage 1 1))]

private def stagedPlan : PlanId := (builderEnv (nthEnv 2)).fresh 0

private def plannedStage : List Call := commands [
  .task (.createTask { NewTask.new "task" with id := some ⟨7⟩ }),
  .task (.advancePipeline ⟨7⟩ (stage 0 2)),
  .plan (.createPlan (NewPlan.new "plan" ⟨0⟩ .anyUser) none),
  .plan (.addPlanTask stagedPlan ⟨7⟩ none none)]

private def amended : Call := .command (nthEnv 4) .internal
  (.plan (.amendPlanTask stagedPlan ⟨7⟩ { TaskPatch.none with title := some "renamed", pipelinePosition := some (stage 1 1) }))
  .anyUser

/-- The task is created once more. -/
private def recreated : Call := .command (nthEnv 4) .internal
  (.task (.createTask { NewTask.new "task" with id := some ⟨7⟩ })) .anyUser

/-- A stage of one instance is left with none closed; a patch by a plan moves a task
to another stage; a task that is created again stands outside of its stage. -/
theorem single_stage_left :
    reportedPositions engineConfig ⟨7⟩ Database.empty singleStage = [some (stage 0 1), some (stage 1 1)] ∧
    (stage 0 1).required = true ∧ (stage 0 1).closed.length < (stage 0 1).fanout ∧
    TaskRepo.pipelinePosition (run engineConfig plannedStage) ⟨7⟩ = some (stage 0 2) ∧
    TaskRepo.pipelinePosition (serve engineConfig (run engineConfig plannedStage) amended) ⟨7⟩ = some (stage 1 1) ∧
    (serve engineConfig (run engineConfig plannedStage) recreated).placementOf ⟨7⟩ = some (.inbox, some (stage 0 2)) := by
  refine ⟨by decide +kernel, rfl, by decide, by decide +kernel, by decide +kernel, by decide +kernel⟩

end Server
end Daruma
