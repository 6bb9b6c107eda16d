import Daruma.Core.DocumentBatches
import Daruma.Storage.WorkUnitSteps

/-! What the commands on units and on handoffs make of the two tables. -/
namespace Daruma

open Outcome KeyedTable Stateful List
open HandoffRepo (applied blocksInto_modify)
open WorkUnitRepo (applyWorkUnitEvent applyEvent)
open EventEnvelope (payload)
open Projections (applyEvents applyEvents_sameLog)

/-- The command asks for a handoff to the unit. A request that mints the identifier
of an old contract rewrites that one. -/
def Command.asksFor (db : Database) (env : Env) (id : WorkUnitId) : Command → Prop
  | .handoff (.requestHandoff new) => new.toWorkUnitId = id ∨
      ∃ contract, db.handoffs.find? (env.fresh 0) = some contract ∧ contract.toWorkUnitId = id
  | _ => False

/-- The command writes units that are there, or handoffs between them. -/
def Command.isDispatch : Command → Bool
  | .workUnit (.createWorkUnit _) => false
  | .workUnit _ | .handoff _ => true
  | _ => false

/-- The unit that a command writes, and the status it writes. Both open statuses
are written as a release. -/
def WorkUnitCommand.target : WorkUnitCommand → Option (WorkUnitId × WorkUnitStatus)
  | .createWorkUnit _ => none
  | .completeWorkUnit id .. => some (id, .done)
  | .releaseWorkUnit id => some (id, .ready)
  | .setWorkUnitStatus id .todo _ => some (id, .ready)
  | .setWorkUnitStatus id status _ => some (id, status)

def Event.asWorkUnit : Event → Option WorkUnitEvent
  | .workUnit event => some event
  | _ => none

def Event.asHandoff : Event → Option HandoffEvent
  | .handoff event => some event
  | _ => none

namespace WorkUnitCommands

open WorkUnitRepo (Records)

variable {db : Database} {env : Env} {command : WorkUnitCommand}

theorem buildEvents_records (h : (Command.workUnit command).isDispatch = true) :
    Yields (buildEvents db env command) fun events => ∃ id event, events = [event] ∧
      command.target = some (id, event.target) ∧ Records db.workUnits id event := by
  have hOpen : ∀ id, Yields (requireOpenWorkUnit db id) fun unit =>
      db.workUnits.find? id = some unit ∧ unit.id = id ∧ unit.status.isTerminal = false := by
    intro id
    refine .andThen fun unit hUnit => .andThen fun _ hNotClosed => .pure ?_
    have hFound := okOr_eq_ok.mp hUnit
    exact ⟨hFound, key_of_find? hFound, Bool.not_eq_true' _ ▸ ensure_eq_ok.mp hNotClosed⟩
  cases command with
  | createWorkUnit workUnit => cases h
  | completeWorkUnit id outcome producedArtifacts nextSuggestedUnits =>
    refine .bind (hOpen id) fun unit ⟨_, hId, _⟩ => .pure ⟨id, _, rfl, rfl, ?_⟩
    exact hId ▸ .completed ..
  | releaseWorkUnit id => exact .andThen fun _ _ => .pure ⟨id, _, rfl, rfl, .released _⟩
  | setWorkUnitStatus id status reason =>
    refine .bind (hOpen id) fun unit ⟨hFound, hId, hNotClosed⟩ => ?_
    cases status with
    | inProgress => exact .pure ⟨id, _, rfl, rfl, .started hFound hNotClosed _⟩
    | blocked => exact .pure ⟨id, _, rfl, rfl, .blocked hFound hNotClosed _ _⟩
    | done => exact .pure ⟨id, _, rfl, rfl, hId ▸ .completed ..⟩
    | ready | todo => exact .pure ⟨id, _, rfl, rfl, .released _⟩
    | review | cancelled => exact .error _

end WorkUnitCommands

namespace HandoffRepo

/-- The contracts after an event about them, also when it was refused. -/
def appliedEvent (handoffs : Handoffs) : HandoffEvent → Handoffs
  | .handoffRequested handoff => (upsert handoffs handoff).toOption.getD handoffs
  | .handoffAccepted handoffId actor notes _ instant =>
    handoffs.modify handoffId fun handoff => { handoff with
      status := .accepted, acceptedByAgentId := actor, notes := notes, requiredChanges := [],
      updatedAt := instant }
  | .handoffRejected handoffId reason requiredChanges _ instant =>
    handoffs.modify handoffId fun handoff => { handoff with
      status := .rejected, notes := some reason, requiredChanges := requiredChanges,
      updatedAt := instant }

variable {handoffs : Handoffs}

theorem applied_eq {envelope : EventEnvelope} :
    applied handoffs envelope = match envelope.payload.asHandoff with
      | some event => appliedEvent handoffs event
      | none => handoffs := by
  unfold applied applyEvent
  cases envelope.payload with
  | handoff event => cases event <;> rfl
  | _ => rfl

end HandoffRepo

namespace HandoffCommands

open HandoffRepo (BlocksInto appliedEvent)

variable {db : Database} {env : Env} {actor : Actor} {id : WorkUnitId} {command : HandoffCommand}

/-- What a command records leaves the unit with the contracts it waited for. -/
def AddsNone (db : Database) (id : WorkUnitId) (events : List HandoffEvent) : Prop :=
  events = [] ∨ ∃ event, events = [event] ∧
    (BlocksInto (appliedEvent db.handoffs event) id → BlocksInto db.handoffs id)

theorem addsNone_requested {contract : HandoffContract} (hNew : contract.toWorkUnitId ≠ id)
    (hOld : ∀ old, db.handoffs.find? contract.id = some old → old.toWorkUnitId ≠ id) :
    AddsNone db id [.handoffRequested contract] := by
  refine .inr ⟨_, rfl, fun hBlocks => ?_⟩
  change BlocksInto ((HandoffRepo.upsert db.handoffs contract).toOption.getD db.handoffs) id at hBlocks
  cases hWritten : HandoffRepo.upsert db.handoffs contract with
  | error e =>
    rw [hWritten] at hBlocks
    exact hBlocks
  | ok written =>
    rw [hWritten] at hBlocks
    exact HandoffRepo.blocksInto_upsert hWritten hNew hOld hBlocks

theorem requestHandoff_addsNone {new : NewHandoffContract}
    (h : ¬(Command.handoff (.requestHandoff new)).asksFor db env id) :
    Yields (requestHandoff db env new) (AddsNone db id) := by
  obtain ⟨hNew, hMinted⟩ := not_or.mp h
  refine .andThen fun _ _ => .andThen fun _ _ => .andThen fun _ _ => ?_
  cases hPair : getByPair db new.fromWorkUnitId new.toWorkUnitId with
  | none => exact .pure (addsNone_requested hNew fun old hOld hInto => hMinted ⟨old, hOld, hInto⟩)
  | some existing =>
    refine .ite (fun _ => .error _) fun _ => .pure (addsNone_requested hNew fun old hOld => ?_)
    -- The contract of the pair leads to the unit that the request names.
    have hMem : existing ∈ db.handoffs := mem_rows.mp (mem_of_find?_eq_some hPair)
    have hInto := find?_some hPair
    rw [Bool.and_eq_true, decide_eq_true_eq, decide_eq_true_eq] at hInto
    obtain rfl := Option.some.inj ((find?_of_mem hMem).symm.trans hOld)
    rwa [hInto.2]

theorem buildEvents_addsNone (h : ¬(Command.handoff command).asksFor db env id) :
    Yields (buildEvents db env actor command) (AddsNone db id) := by
  cases command with
  | requestHandoff handoff => exact requestHandoff_addsNone h
  | acceptHandoff handoffId notes =>
    refine .andThen fun contract hContract => ?_
    cases contract.status with
    | accepted => exact .pure (.inl rfl)
    | ready | rejected | expired => exact .error _
    | opened =>
      refine .pure (.inr ⟨_, rfl, blocksInto_modify (fun _ => rfl) (fun _ => rfl) ?_⟩)
      exact fun _ _ _ hNotAccepted => absurd rfl hNotAccepted
  | rejectHandoff handoffId reason requiredChanges =>
    refine .andThen fun _ _ => .andThen fun contract hContract => ?_
    have hFound := okOr_eq_ok.mp hContract
    cases hWas : contract.status with
    | rejected => exact .pure (.inl rfl)
    | ready | accepted | expired => exact .error _
    | opened =>
      refine .pure (.inr ⟨_, rfl, blocksInto_modify (fun _ => rfl) (fun _ => rfl) ?_⟩)
      intro old hOld hId _ hAccepted
      have hSame : old = contract := by
        refine Option.some.inj ((find?_of_mem hOld).symm.trans ?_)
        rw [hId]
        exact hFound
      rw [hSame, hWas] at hAccepted
      cases hAccepted

end HandoffCommands

namespace Projections

variable {env : Env} {envelope : EventEnvelope} {envelopes : List EventEnvelope} {db db' : Database}
  {outcome : Except CoreError Unit}

theorem applyEvents_workUnits (h : applyEvents env envelopes db = (outcome, db')) :
    ∃ taken left, envelopes = taken ++ left ∧
      db'.workUnits = taken.foldl applyEvent db.workUnits := by
  obtain ⟨taken, left, hSplit, _, hFold⟩ := inTurn_fold Database.workUnits applyEvent
    (fun envelope _ _ _ _ hRun => projectors_rewrite Database.workUnits (applyEvent · envelope)
      (fun _ _ hSame => hSame.2.1) (fun _ _ => rfl) (fun _ => rfl) hRun) h
  exact ⟨taken, left, hSplit, hFold⟩

theorem projectors_handoffs (h : Stateful.inTurn (projectors env envelope) db = (outcome, db')) :
    (outcome ≠ .ok () ∧ db'.handoffs = db.handoffs) ∨
      db'.handoffs = applied db.handoffs envelope := by
  have hSplit : projectors env envelope = ((projectors env envelope).take 8 ++
      [fun db => .ok (documents envelope db)]) ++ handoffs envelope :: (projectors env envelope).drop 10 := rfl
  rw [hSplit] at h
  refine inTurn_field Database.handoffs (applied · envelope) ?_ ?_ ?_ h
  · intro step hStep db db' hRun
    rcases mem_append.mp hStep with hStep | hStep
    · exact (projectors_sameWork (mem_append_left _ hStep) hRun).2.2
    · cases mem_singleton.mp hStep
      cases hRun
      rfl
  · intro db db' hRun
    obtain ⟨written, hWritten, hRun⟩ := bind_eq_ok.mp hRun
    cases pure_eq_ok.mp hRun
    change written = (HandoffRepo.applyEvent db.handoffs envelope).toOption.getD db.handoffs
    rw [hWritten]
    rfl
  · exact fun step hStep db db' hRun => (projectors_sameWork (mem_append_right _ hStep) hRun).2.2

theorem applyEvents_handoffs (h : applyEvents env envelopes db = (outcome, db')) :
    ∃ taken left, envelopes = taken ++ left ∧
      db'.handoffs = taken.foldl applied db.handoffs := by
  obtain ⟨taken, left, hSplit, _, hFold⟩ := inTurn_fold Database.handoffs applied
    (fun _ _ _ _ _ hRun => projectors_handoffs hRun) h
  exact ⟨taken, left, hSplit, hFold⟩

end Projections

namespace WorkUnitRepo

def stamped (envelope : EventEnvelope) : Option (Timestamp × WorkUnitEvent) :=
  envelope.payload.asWorkUnit.map fun event => (envelope.occurredAt, event)

variable {envelopes : List EventEnvelope}

theorem foldl_applyEvent {workUnits : WorkUnits} :
    envelopes.foldl applyEvent workUnits = (envelopes.filterMap stamped).foldl
      (fun workUnits event => applyWorkUnitEvent workUnits event.1 event.2) workUnits := by
  rw [foldl_filterMap]
  refine congrArg (List.foldl · workUnits envelopes) (funext fun workUnits => funext fun envelope => ?_)
  unfold applyEvent stamped
  cases envelope.payload with
  | workUnit event => rfl
  | _ => rfl

theorem map_snd_stamped : (envelopes.filterMap stamped).map Prod.snd =
      (envelopes.map payload).filterMap Event.asWorkUnit := by
  rw [map_filterMap, filterMap_map]
  refine congrArg (List.filterMap · envelopes) (funext fun envelope => ?_)
  unfold stamped
  rw [Option.map_map]
  exact Option.map_id'

end WorkUnitRepo

namespace HandoffRepo

theorem foldl_applied {envelopes : List EventEnvelope} : envelopes.foldl applied handoffs =
      ((envelopes.map payload).filterMap Event.asHandoff).foldl appliedEvent handoffs := by
  rw [filterMap_map, foldl_filterMap]
  refine congrArg (List.foldl · handoffs envelopes) (funext fun handoffs => funext fun envelope => ?_)
  rw [applied_eq, Function.comp_apply]
  cases envelope.payload.asHandoff <;> rfl

end HandoffRepo

namespace Projections

variable {env : Env} {event : WorkUnitEvent} {envelopes : List EventEnvelope} {db db' : Database}
  {outcome : Except CoreError Unit}

theorem workUnits_of_recorded (h : applyEvents env envelopes db = (outcome, db'))
    (hRecorded : (envelopes.map payload).filterMap Event.asWorkUnit = [event]) :
    db'.workUnits = db.workUnits ∨
      ∃ instant, db'.workUnits = applyWorkUnitEvent db.workUnits instant event := by
  obtain ⟨taken, left, rfl, hFold⟩ := applyEvents_workUnits h
  rw [map_append, filterMap_append] at hRecorded
  rw [hFold, WorkUnitRepo.foldl_applyEvent]
  have hStamps : (taken.filterMap WorkUnitRepo.stamped).map Prod.snd = [] ∨
      (taken.filterMap WorkUnitRepo.stamped).map Prod.snd = [event] := by
    rw [WorkUnitRepo.map_snd_stamped]
    exact (append_eq_singleton_iff.mp hRecorded).imp And.left And.left
  rcases hStamps with hNil | hOne
  · rw [map_eq_nil_iff.mp hNil]
    exact .inl rfl
  · obtain ⟨⟨instant, _⟩, hStamp, rfl⟩ := map_eq_singleton_iff.mp hOne
    rw [hStamp]
    exact .inr ⟨instant, rfl⟩

theorem workUnits_of_none (h : applyEvents env envelopes db = (outcome, db'))
    (hNone : (envelopes.map payload).filterMap Event.asWorkUnit = []) :
    db'.workUnits = db.workUnits := by
  obtain ⟨taken, left, rfl, hFold⟩ := applyEvents_workUnits h
  rw [map_append, filterMap_append] at hNone
  have hTaken : (taken.filterMap WorkUnitRepo.stamped).map Prod.snd = [] := by
    rw [WorkUnitRepo.map_snd_stamped]
    exact (append_eq_nil_iff.mp hNone).1
  rw [hFold, WorkUnitRepo.foldl_applyEvent, map_eq_nil_iff.mp hTaken]
  rfl

theorem handoffs_of_none (h : applyEvents env envelopes db = (outcome, db'))
    (hNone : (envelopes.map payload).filterMap Event.asHandoff = []) : db'.handoffs = db.handoffs := by
  obtain ⟨taken, left, rfl, hFold⟩ := applyEvents_handoffs h
  rw [map_append, filterMap_append] at hNone
  rw [hFold, HandoffRepo.foldl_applied, (append_eq_nil_iff.mp hNone).1]
  rfl

end Projections

namespace Handler

open WorkUnitRepo (Records statusOf)
open HandoffRepo (BlocksInto)

variable {config : Config} {db db' : Database} {env : Env} {caller : Caller} {claimed : Actor} {command : Command}
  {batch : List Event} {relations : Relations} {trail : GateStage.Trail} {persisted : List EventEnvelope}
  {appended applied : Database} {outcome : Except CoreError Unit}

/-- Neither audit events nor releases of claims nor events of plans count. -/
structure SkipsSurroundings {α : Type} (f : Event → Option α) : Prop where
  audit : ∀ event : Event, event.isAudit = true → f event = none
  release : ∀ event, IsRelease event → f event = none
  plan : ∀ event, f (.plan event) = none

theorem skipsSurroundings_asWorkUnit : SkipsSurroundings Event.asWorkUnit := by
  refine ⟨fun event hAudit => ?_, ?_, fun _ => rfl⟩
  · cases event with
    | workUnit event => cases hAudit
    | _ => rfl
  · rintro event ⟨_, _, _, rfl⟩
    rfl

theorem skipsSurroundings_asHandoff : SkipsSurroundings Event.asHandoff := by
  refine ⟨fun event hAudit => ?_, ?_, fun _ => rfl⟩
  · cases event with
    | handoff event => cases hAudit
    | _ => rfl
  · rintro event ⟨_, _, _, rfl⟩
    rfl

variable (h : Accepted config env caller command claimed db batch relations trail persisted appended)

include h in
theorem Accepted.recorded {α β : Type} {wrap : α → Event} {built : Actor → Result (List α)} {f : Event → Option β}
    (hPlan : ∀ plan, command ≠ .plan plan) (hTakesIn : command.takesIn = false)
    (hBuild : ∀ actor, buildEvents config db (builderEnv env) actor command =
      Stateful.lift (List.map wrap <$> built actor))
    (hWrap : ∀ event, authenticated caller (wrap event) = wrap event) (hSkips : SkipsSurroundings f) :
    ∃ events, built (attributedActor caller command claimed) = .ok events ∧
      (persisted.map payload).filterMap f = events.filterMap fun event => f (wrap event) := by
  obtain ⟨warnings, hDraft⟩ := h.built
  obtain ⟨wrapped, hBuilt, rfl⟩ := draft_ok hPlan hDraft
  rw [hBuild] at hBuilt
  obtain ⟨hMapped, _⟩ := lift_eq.mp hBuilt
  obtain ⟨events, hEvents, rfl⟩ := map_eq_ok.mp hMapped
  refine ⟨events, hEvents, ?_⟩
  obtain ⟨first, last, hPayloads, hFirst, hLast⟩ := h.surrounded hTakesIn
  have hFirstNone : first.filterMap f = [] :=
    filterMap_eq_nil_iff.mpr fun event hMem => hSkips.audit event (hFirst event hMem)
  have hLastNone : last.filterMap f = [] :=
    filterMap_eq_nil_iff.mpr fun event hMem =>
      (hLast event hMem).elim (hSkips.audit event) (hSkips.release event)
  have hPlans : ∀ plans : List PlanEvent, (plans.map Event.plan).filterMap f = [] := fun plans => by
    rw [filterMap_map]
    exact filterMap_eq_nil_iff.mpr fun event _ => hSkips.plan event
  have hWrapped : (events.map wrap).map (authenticated caller) = events.map wrap := by
    rw [map_map]
    exact map_congr_left fun event _ => hWrap event
  rw [hPayloads, hWrapped, filterMap_append, filterMap_append, filterMap_append, hFirstNone, hLastNone,
    hPlans, nil_append, append_nil, append_nil, filterMap_map]
  rfl

/-- What a command on units and handoffs leaves: units that it moves as recorded,
done units, contracts with a unit that it asks nothing for, and a release in the log for a unit that can be
given to an agent again. -/
structure Dispatched (command : Command) (env : Env) (before after : Database) : Prop where
  moved : ∀ id, after.workUnits.find? id = before.workUnits.find? id ∨ ∃ recorded event instant,
    command = .workUnit recorded ∧ recorded.target = some (id, event.target) ∧ Records before.workUnits id event ∧
      after.workUnits.find? id = (applyWorkUnitEvent before.workUnits instant event).find? id
  done : ∀ id, statusOf before.workUnits id = some .done → statusOf after.workUnits id = some .done
  held : ∀ id, (∀ status, statusOf before.workUnits id = some status → status.isDispatchable = false) →
    (∃ envelope ∈ after.events.rows.drop before.events.rows.length, ∃ event,
      envelope.payload = .workUnit event ∧ event.ends id = true) ∨
    ∀ status, statusOf after.workUnits id = some status → status.isDispatchable = false
  received : ∀ id, ¬command.asksFor before (builderEnv env) id → BlocksInto after.handoffs id →
    BlocksInto before.handoffs id

/-- The log goes on, and the units and the contracts are the same rows. -/
def SameUnits (before after : Database) : Prop :=
  AutoAppend.LogGrows before after ∧ after.workUnits = before.workUnits ∧ after.handoffs = before.handoffs

theorem Dispatched.of_same (h : SameUnits db db') : Dispatched command env db db' := by
  obtain ⟨_, hUnits, hHandoffs⟩ := h
  refine ⟨fun _ => .inl (by rw [hUnits]), fun _ hDone => by rw [hUnits]; exact hDone, fun _ hHeld => .inr ?_, ?_⟩
  · rw [hUnits]
    exact hHeld
  · intro _ _ hBlocks
    rwa [hHandoffs] at hBlocks

theorem Dispatched.andThen {middle : Database} (h : Dispatched command env db middle)
    (hLog : ∃ recorded, middle.events.rows = db.events.rows ++ recorded) (hSame : SameUnits middle db') :
    Dispatched command env db db' := by
  obtain ⟨⟨later, hLater⟩, hUnits, hHandoffs⟩ := hSame
  obtain ⟨recorded, hRecorded⟩ := hLog
  refine ⟨fun id => ?_, fun id hDone => ?_, fun id hHeld => ?_, fun id hNot hBlocks => ?_⟩
  · rw [hUnits]
    exact h.moved id
  · rw [hUnits]
    exact h.done id hDone
  · rw [hUnits]
    refine (h.held id hHeld).imp_left ?_
    rintro ⟨envelope, hMem, hEnds⟩
    refine ⟨envelope, ?_, hEnds⟩
    rw [hRecorded, drop_left] at hMem
    rw [hLater, hRecorded, append_assoc, drop_left]
    exact mem_append_left later hMem
  · rw [hHandoffs] at hBlocks
    exact h.received id hNot hBlocks

include h in
theorem Accepted.projectedLog (hApplied : applyEvents (env.part 4) persisted appended = (outcome, applied)) :
    applied.events.rows = db.events.rows ++ persisted := by
  rw [(applyEvents_sameLog hApplied).1]
  exact h.log

include h in
theorem Accepted.sameRows : appended.workUnits = db.workUnits ∧ appended.handoffs = db.handoffs := by
  obtain ⟨_, _, _, _, _, rfl⟩ := h.frame
  exact ⟨rfl, rfl⟩

theorem Accepted.dispatched_workUnit {command : WorkUnitCommand}
    (hDispatch : (Command.workUnit command).isDispatch = true)
    (h : Accepted config env caller (.workUnit command) claimed db batch relations trail persisted appended)
    (hApplied : applyEvents (env.part 4) persisted appended = (outcome, applied)) :
    Dispatched (.workUnit command) env db applied := by
  have hLog := h.projectedLog hApplied
  have hPlan : ∀ plan, Command.workUnit command ≠ .plan plan := fun plan hIs => by cases hIs
  have hBuild : ∀ actor, buildEvents config db (builderEnv env) actor (.workUnit command) =
      lift (List.map Event.workUnit <$> WorkUnitCommands.buildEvents db (builderEnv env) command) :=
    fun _ => rfl
  obtain ⟨events, hBuilt, hRecorded⟩ := h.recorded hPlan rfl hBuild (fun _ => rfl) skipsSurroundings_asWorkUnit
  obtain ⟨_, _, hNone⟩ := h.recorded hPlan rfl hBuild (fun _ => rfl) skipsSurroundings_asHandoff
  obtain ⟨id, event, rfl, hTarget, hEvent⟩ := WorkUnitCommands.buildEvents_records hDispatch events hBuilt
  obtain ⟨hOldUnits, hOldHandoffs⟩ := h.sameRows
  have hHandoffs : applied.handoffs = db.handoffs :=
    (Projections.handoffs_of_none hApplied (hNone.trans (filterMap_eq_nil_iff.mpr fun _ _ => rfl))).trans
      hOldHandoffs
  have hUnits : applied.workUnits = db.workUnits ∨
      ∃ instant, applied.workUnits = applyWorkUnitEvent db.workUnits instant event := by
    rw [← hOldUnits]
    exact Projections.workUnits_of_recorded hApplied hRecorded
  have hPersisted : ∃ envelope ∈ persisted, envelope.payload = .workUnit event := by
    have hMem : event ∈ (persisted.map EventEnvelope.payload).filterMap Event.asWorkUnit := by
      rw [hRecorded]
      exact mem_singleton_self event
    obtain ⟨payload, hPayload, hAs⟩ := mem_filterMap.mp hMem
    obtain ⟨envelope, hEnvelope, rfl⟩ := mem_map.mp hPayload
    refine ⟨envelope, hEnvelope, ?_⟩
    cases hIs : envelope.payload with
    | workUnit event =>
      rw [hIs] at hAs
      exact congrArg Event.workUnit (Option.some.inj hAs)
    | _ =>
      rw [hIs] at hAs
      cases hAs
  rcases hUnits with hUnits | ⟨instant, hUnits⟩
  · exact .of_same ⟨⟨persisted, hLog⟩, hUnits, hHandoffs⟩
  · refine ⟨fun id' => ?_, fun id' hDone => ?_, fun id' hHeld => ?_, fun id' _ hBlocks => ?_⟩
    · rw [hUnits]
      by_cases hSame : id = id'
      · subst hSame
        exact .inr ⟨command, event, instant, rfl, hTarget, hEvent, rfl⟩
      · exact .inl (WorkUnitRepo.find?_applyWorkUnitEvent_of_ne (hEvent.workUnitId_eq ▸ hSame))
    · rw [hUnits]
      exact hEvent.done hDone
    · rw [hUnits, hLog, drop_left]
      refine (hEvent.held hHeld).imp_left fun hEnds => ?_
      obtain ⟨envelope, hMem, hPayload⟩ := hPersisted
      exact ⟨envelope, hMem, event, hPayload, hEnds⟩
    · rwa [hHandoffs] at hBlocks

theorem Accepted.dispatched_handoff {command : HandoffCommand}
    (h : Accepted config env caller (.handoff command) claimed db batch relations trail persisted appended)
    (hApplied : applyEvents (env.part 4) persisted appended = (outcome, applied)) :
    Dispatched (.handoff command) env db applied := by
  have hLog := h.projectedLog hApplied
  have hPlan : ∀ plan, Command.handoff command ≠ .plan plan := fun plan hIs => by cases hIs
  have hBuild : ∀ actor, buildEvents config db (builderEnv env) actor (.handoff command) =
      lift (List.map Event.handoff <$> HandoffCommands.buildEvents db (builderEnv env) actor command) :=
    fun _ => rfl
  obtain ⟨events, hBuilt, hRecorded⟩ := h.recorded hPlan rfl hBuild (fun _ => rfl) skipsSurroundings_asHandoff
  obtain ⟨_, _, hNone⟩ := h.recorded hPlan rfl hBuild (fun _ => rfl) skipsSurroundings_asWorkUnit
  obtain ⟨hOldUnits, hOldHandoffs⟩ := h.sameRows
  have hUnits : applied.workUnits = db.workUnits :=
    (Projections.workUnits_of_none hApplied (hNone.trans (filterMap_eq_nil_iff.mpr fun _ _ => rfl))).trans
      hOldUnits
  refine ⟨fun _ => .inl (by rw [hUnits]), fun _ hDone => by rw [hUnits]; exact hDone, fun _ hHeld => .inr ?_, ?_⟩
  · rw [hUnits]
    exact hHeld
  · intro id hNot hBlocks
    obtain ⟨taken, left, rfl, hFold⟩ := Projections.applyEvents_handoffs hApplied
    rw [map_append, filterMap_append] at hRecorded
    rw [hFold, HandoffRepo.foldl_applied, hOldHandoffs] at hBlocks
    have hEvents : events.filterMap (fun event => (Event.handoff event).asHandoff) = events := filterMap_some
    rw [hEvents] at hRecorded
    rcases HandoffCommands.buildEvents_addsNone hNot events hBuilt with rfl | ⟨event, rfl, hAdds⟩
    · rw [(append_eq_nil_iff.mp hRecorded).1] at hBlocks
      exact hBlocks
    · rcases append_eq_singleton_iff.mp hRecorded with ⟨hTaken, _⟩ | ⟨hTaken, _⟩
      · rw [hTaken] at hBlocks
        exact hBlocks
      · rw [hTaken] at hBlocks
        exact hAdds hBlocks

theorem Accepted.dispatched (hDispatch : command.isDispatch = true)
    (h : Accepted config env caller command claimed db batch relations trail persisted appended)
    (hApplied : applyEvents (env.part 4) persisted appended = (outcome, applied)) :
    Dispatched command env db applied := by
  cases command with
  | workUnit command => exact h.dispatched_workUnit hDispatch hApplied
  | handoff command => exact h.dispatched_handoff hApplied
  | _ => cases hDispatch

end Handler

namespace AutoAppend

open Handler (SameUnits)

variable {config : Config} {env : Env} {actor : Actor} {db : Database}

variable {db' : Database} {event : Event}

theorem persistSignalEvent_recorded {outcome : Except CoreError Unit}
    (h : persistSignalEvent env actor event db = (outcome, db')) :
    db' = db ∨ ∃ persisted appended, persisted.map payload = [event] ∧
      appended.events.rows = db.events.rows ++ persisted ∧ appended.workUnits = db.workUnits ∧
      appended.handoffs = db.handoffs ∧
      applyEvents (env.part 1) persisted appended = (outcome, db') := by
  rcases persistSignalEvent_cases h with rfl | ⟨persisted, appended, hAppend, hApplied⟩
  · exact .inl rfl
  · obtain ⟨hPayloads, hLog, _, _, rfl⟩ := appendBatch_ok hAppend
    exact .inr ⟨persisted, _, hPayloads, hLog, rfl, rfl, hApplied⟩

theorem persistSignalEvent_workUnit {event : WorkUnitEvent}
    (h : db' = (persistSignalEvent env actor (.workUnit event) db).2) :
    db'.handoffs = db.handoffs ∧ (db'.workUnits = db.workUnits ∨
      ∃ instant, db'.workUnits = applyWorkUnitEvent db.workUnits instant event) := by
  cases hRun : persistSignalEvent env actor (.workUnit event) db with
  | mk outcome written =>
  rw [hRun] at h
  subst h
  rcases persistSignalEvent_recorded hRun with rfl | ⟨persisted, appended, hPayloads, _, hUnits, hHandoffs, hApplied⟩
  · exact ⟨rfl, .inl rfl⟩
  · refine ⟨(Projections.handoffs_of_none hApplied (by rw [hPayloads]; rfl)).trans hHandoffs, ?_⟩
    rw [← hUnits]
    exact Projections.workUnits_of_recorded hApplied (by rw [hPayloads]; rfl)

theorem autoAppendLogs_sameUnits (envelopes : List EventEnvelope) :
    SameUnits db (autoAppendLogs config env db envelopes) := by
  obtain ⟨_, _, _, _, later, _, hLines, hLog, _⟩ := autoAppendLogs_lines envelopes db
  rw [hLines]
  exact ⟨⟨later, hLog⟩, rfl, rfl⟩

end AutoAppend

namespace Handler

variable {config : Config} {db : Database} {env : Env} {caller : Caller} {claimed : Actor} {command : Command}

theorem handle_dispatched (hDispatch : command.isDispatch = true) :
    Dispatched command env db (handleWithRunOwner config env caller command claimed db).2 := by
  cases hRun : handleWithRunOwner config env caller command claimed db with
  | mk outcome db' =>
  cases handled hRun with
  | unlogged _ _ hAudited =>
    obtain ⟨audit, _, hLog, _, _, _, rfl⟩ := hAudited
    exact .of_same ⟨⟨audit, hLog⟩, rfl, rfl⟩
  | stranded hAccepted hApplied => exact hAccepted.dispatched hDispatch hApplied
  | projected hAccepted hApplied _ =>
    exact (hAccepted.dispatched hDispatch hApplied).andThen ⟨_, hAccepted.projectedLog hApplied⟩
      (AutoAppend.autoAppendLogs_sameUnits _)

end Handler
end Daruma
