import Daruma.Core.WorkHistory

/-! What keeps plans open: their members, their statuses and parents, and their runs.
A batch that only closes plans and ends runs is a fold over them. -/
namespace Daruma

open KeyedTable Stateful List

structure PlanCard where
  status : PlanStatus
  archived : Bool
  parent : Option PlanId

def Plan.card (plan : Plan) : PlanCard := ⟨plan.status, plan.archivedAt.isSome, plan.parentPlanId⟩

structure Standing where
  members : List PlanTask
  plan : PlanId → Option PlanCard
  run : RunId → Option (PlanId × Bool)

def Run.standing (run : Run) : PlanId × Bool := (run.planId, run.status = .active)

def Database.standing (db : Database) : Standing where
  members := db.planTasks.rows
  plan id := (db.plans.find? id).map Plan.card
  run id := (db.runs.find? id).map Run.standing

namespace Event

def endedRun : Event → Option RunId
  | .run (.runCompleted runId _) | .run (.runFailed runId ..) | .run (.runAborted runId ..) => some runId
  | _ => none

def onMembers (event : Event) (members : List PlanTask) : List PlanTask :=
  match event with
  | .plan (.planDeleted planId _) => members.filter fun member => member.planId ≠ planId
  | _ => members

def onPlan (event : Event) (id : PlanId) (card : Option PlanCard) : Option PlanCard :=
  match event with
  | .plan (.planStatusChanged planId _ toStatus) =>
    if planId = id then card.map fun card => { card with status := toStatus } else card
  | .plan (.planArchived planId _) =>
    if planId = id then card.map fun card => { card with status := .abandoned, archived := true } else card
  | .plan (.planDeleted planId _) => if planId = id then none else card
  | _ => card

def onRun (event : Event) (id : RunId) (run : Option (PlanId × Bool)) : Option (PlanId × Bool) :=
  if event.endedRun = some id then run.map fun run => (run.1, false) else run

def stand (before : Standing) (event : Event) : Standing where
  members := event.onMembers before.members
  plan id := event.onPlan id (before.plan id)
  run id := event.onRun id (before.run id)

def isTracked : Event → Bool
  | .plan (.planStatusChanged ..) | .plan (.planArchived ..) | .plan (.planDeleted ..) => true
  | .plan _ => false
  | .run (.runCompleted ..) | .run (.runFailed ..) | .run (.runAborted ..) | .run (.runObsolescedByPlanEdit ..) => true
  | .run _ => false
  | _ => true

variable {event : Event} {before : Standing}

theorem onMembers_twice (members : List PlanTask) : event.onMembers (event.onMembers members) = event.onMembers members := by
  cases event with
  | plan event =>
    cases event with
    | planDeleted => simp [onMembers]
    | _ => rfl
  | _ => rfl

theorem onPlan_twice (id : PlanId) (card : Option PlanCard) : event.onPlan id (event.onPlan id card) = event.onPlan id card := by
  cases event with
  | plan event =>
    cases event with
    | planStatusChanged planId | planArchived planId | planDeleted planId =>
      by_cases hIs : planId = id
      · simp [onPlan, hIs, Function.comp_def]
      · simp [onPlan, hIs]
    | _ => rfl
  | _ => rfl

theorem onRun_twice (id : RunId) (run : Option (PlanId × Bool)) : event.onRun id (event.onRun id run) = event.onRun id run := by
  unfold onRun
  split
  · cases run <;> rfl
  · rfl

/-- Closing, deleting and ending twice is doing so once. -/
theorem stand_twice : stand (stand before event) event = stand before event := by
  unfold stand
  dsimp only
  rw [onMembers_twice]
  congr 1
  · funext id
    exact onPlan_twice id _
  · funext id
    exact onRun_twice id _

theorem stand_of_idle (hMembers : ∀ members, event.onMembers members = members)
    (hPlan : ∀ id card, event.onPlan id card = card) (hRun : event.endedRun = none) : stand before event = before := by
  unfold stand onRun
  rw [hMembers, hRun]
  simp only [hPlan, reduceCtorEq, if_false]

end Event

def standingAfter (events : List Event) (before : Standing) : Standing := events.foldl Event.stand before

section

variable {events : List Event} {before : Standing}

theorem standingAfter_append {later : List Event} :
    standingAfter (events ++ later) before = standingAfter later (standingAfter events before) := foldl_append

theorem standingAfter_eq_self (h : ∀ event ∈ events, ∀ before, Event.stand before event = before) :
    standingAfter events before = before := by
  induction events generalizing before with
  | nil => rfl
  | cons event rest ih =>
    obtain ⟨hFirst, hRest⟩ := forall_mem_cons.mp h
    rw [standingAfter, foldl_cons, hFirst]
    exact ih hRest

theorem standingAfter_members : (standingAfter events before).members =
    events.foldl (fun members event => event.onMembers members) before.members := by
  induction events generalizing before with
  | nil => rfl
  | cons event rest ih => exact ih

theorem standingAfter_plan (id : PlanId) : (standingAfter events before).plan id =
    events.foldl (fun card event => event.onPlan id card) (before.plan id) := by
  induction events generalizing before with
  | nil => rfl
  | cons event rest ih => exact ih

theorem standingAfter_run (id : RunId) : (standingAfter events before).run id =
    (before.run id).map fun run => (run.1, run.2 && events.all fun event => event.endedRun ≠ some id) := by
  induction events generalizing before with
  | nil =>
    cases hRun : before.run id with
    | none => exact hRun
    | some run =>
      refine hRun.trans (congrArg some ?_)
      rw [all_nil]
      dsimp only
      rw [Bool.and_true]
  | cons event rest ih =>
    refine ih.trans ?_
    change (event.onRun id (before.run id)).map _ = _
    unfold Event.onRun
    split
    · rename_i hEnds
      cases before.run id with
      | none => rfl
      | some run => simp [hEnds]
    · rename_i hOther
      cases before.run id with
      | none => rfl
      | some run => simp [hOther]

end

namespace PlanRepo

variable {db : Database} {env : Env} {envelope : EventEnvelope}

variable {planId : PlanId} {f : Plan → Plan} {instant : Timestamp}

theorem card_modify {id : PlanId} (hId : ∀ plan, (f plan).id = plan.id) :
    ((db.plans.modify planId f).find? id).map Plan.card =
      if planId = id then ((db.plans.find? id).map f).map Plan.card else (db.plans.find? id).map Plan.card := by
  rw [find?_modify _ _ _ _ hId]
  split
  · rfl
  · rfl

theorem standing_touchPlan : (touchPlan db planId instant).standing = db.standing := by
  unfold Database.standing touchPlan
  dsimp only
  congr 1
  funext id
  rw [card_modify]
  · split
    · cases db.plans.find? id with
      | none => rfl
      | some plan =>
        refine congrArg some ?_
        dsimp only
        split <;> rfl
    · rfl
  · intro plan
    split <;> rfl

theorem standing_deletePlan :
    (deletePlan db planId instant).standing = Event.stand db.standing (.plan (.planDeleted planId instant)) := by
  have hErased : ∀ touched : Database, touched.standing = db.standing →
      Database.standing { touched with
        planTasks := touched.planTasks.filter fun member => member.planId ≠ planId
        plans := touched.plans.erase planId } = Event.stand db.standing (.plan (.planDeleted planId instant)) := by
    rintro touched hSame
    rw [← hSame]
    unfold Database.standing Event.stand
    dsimp only
    congr 1
    · funext id
      change _ = if planId = id then none else _
      split
      · rename_i hIs
        rw [hIs, find?_erase_self]
        rfl
      · rename_i hOther
        rw [find?_erase_of_ne _ (Ne.symm hOther)]
  unfold deletePlan
  dsimp only
  split
  · exact hErased _ standing_touchPlan
  · exact hErased _ rfl

theorem standing_updatePlan (g : PlanCard → PlanCard)
    (hId : ∀ plan, (f plan).id = plan.id) (hCard : ∀ plan, (f plan).card = g plan.card) :
    (updatePlan db planId f).standing = { db.standing with
      plan := fun id => if planId = id then (db.standing.plan id).map g else db.standing.plan id } := by
  unfold updatePlan Database.standing
  dsimp only
  congr 1
  funext id
  rw [card_modify hId]
  split
  · rw [Option.map_map, Option.map_map]
    exact congrArg (Option.map · (db.plans.find? id)) (funext hCard)
  · rfl

theorem standing_applyPlanEvent {event : PlanEvent} (h : Event.isTracked (.plan event) = true) :
    (applyPlanEvent db env envelope event).standing = Event.stand db.standing (.plan event) := by
  cases event with
  | planStatusChanged planId fromStatus toStatus =>
    refine standing_updatePlan (fun card => { card with status := toStatus }) (fun _ => ?_) fun _ => ?_
    · rfl
    · rfl
  | planArchived planId instant =>
    refine standing_updatePlan (fun card => { card with status := .abandoned, archived := true }) (fun _ => ?_)
      fun _ => ?_
    · rfl
    · rfl
  | planDeleted planId instant => exact standing_deletePlan
  | _ => cases h

end PlanRepo

namespace RunRepo

variable {db : Database}

theorem standing_endRun {id : RunId} {status : RunStatus} {reason : String} {instant : Timestamp}
    (hEnded : status ≠ .active) : (updateRun db id (endRun status reason instant)).standing =
      { db.standing with run := fun other =>
          if id = other then (db.standing.run other).map fun run => (run.1, false) else db.standing.run other } := by
  unfold updateRun Database.standing
  dsimp only
  congr 1
  funext other
  rw [find?_modify]
  · split
    · rw [Option.map_map, Option.map_map]
      refine congrArg (Option.map · (db.runs.find? other)) (funext fun run => ?_)
      simp [Run.standing, endRun, hEnded]
    · rfl
  · exact fun _ => rfl

theorem standing_applyRunEvent {event : RunEvent} (h : Event.isTracked (.run event) = true) :
    (applyRunEvent db event).standing = Event.stand db.standing (.run event) := by
  have hSame : ∀ {id : RunId}, (fun other => if id = other then (db.standing.run other).map fun run => (run.1, false)
      else db.standing.run other) = fun other => if some id = some other then (db.standing.run other).map
        fun run => (run.1, false) else db.standing.run other := by
    intro id
    simp only [Option.some.injEq]
  cases event with
  | runCompleted id | runFailed id | runAborted id =>
    refine (standing_endRun (fun hIs => by cases hIs)).trans ?_
    rw [hSame]
    rfl
  | runObsolescedByPlanEdit => exact (Event.stand_of_idle (fun _ => rfl) (fun _ _ => rfl) rfl).symm
  | _ => cases h

end RunRepo

namespace Projections

variable {env : Env} {envelope : EventEnvelope} {envelopes : List EventEnvelope} {db db' : Database}
  {outcome : Except CoreError Unit} {event : Event}

def StandsBy (event : Event) (before after : Database) : Prop :=
  after.standing = before.standing ∨ after.standing = Event.stand before.standing event

theorem StandsBy.refl (db : Database) : StandsBy event db db := .inl rfl

theorem plans_standing (hTracked : envelope.payload.isTracked = true) {recorded : PlanEvent}
    (hPayload : envelope.payload = .plan recorded) (db : Database) :
    (PlanRepo.applyEvent db env envelope).standing = Event.stand db.standing envelope.payload := by
  rw [hPayload] at hTracked ⊢
  unfold PlanRepo.applyEvent
  rw [hPayload]
  exact PlanRepo.standing_applyPlanEvent hTracked

theorem runs_standing (hTracked : envelope.payload.isTracked = true) {recorded : RunEvent}
    (hPayload : envelope.payload = .run recorded) (db : Database) :
    (RunRepo.applyEvent db envelope).standing = Event.stand db.standing envelope.payload := by
  rw [hPayload] at hTracked ⊢
  unfold RunRepo.applyEvent
  rw [hPayload]
  exact RunRepo.standing_applyRunEvent hTracked

theorem projectors_standsBy (hTracked : envelope.payload.isTracked = true) {step : Database → Result Database}
    (hStep : step ∈ projectors env envelope) (h : step db = .ok db') : StandsBy envelope.payload db db' := by
  obtain ⟨_, hWrote⟩ := exists_wrote hStep h
  cases hWrote with
  | plans hApplied =>
    rw [← hApplied]
    cases hPayload : envelope.payload with
    | plan recorded => exact .inr (hPayload ▸ plans_standing hTracked hPayload db)
    | _ =>
      unfold PlanRepo.applyEvent
      rw [hPayload]
      exact .refl db
  | runs hApplied =>
    rw [← hApplied]
    cases hPayload : envelope.payload with
    | run recorded => exact .inr (hPayload ▸ runs_standing hTracked hPayload db)
    | _ =>
      unfold RunRepo.applyEvent
      rw [hPayload]
      exact .refl db
  | _ => exact .refl db

theorem exists_projector (hTracked : envelope.payload.isTracked = true) : ∃ step ∈ projectors env envelope,
    ∀ before after, step before = .ok after → after.standing = Event.stand before.standing envelope.payload := by
  have hIdle : ∀ {recorded : Event}, envelope.payload = recorded → (∀ members, recorded.onMembers members = members) →
      (∀ id card, recorded.onPlan id card = card) → recorded.endedRun = none →
      ∃ step ∈ projectors env envelope, ∀ before after, step before = .ok after →
        after.standing = Event.stand before.standing envelope.payload := by
    rintro _ rfl hMembers hPlan hRun
    refine ⟨_, mem_cons_of_mem _ mem_cons_self, fun before after hTaken => ?_⟩
    cases hTaken
    exact (Event.stand_of_idle hMembers hPlan hRun).symm
  cases hPayload : envelope.payload with
  | plan recorded =>
    refine ⟨_, mem_cons_of_mem _ (mem_cons_of_mem _ mem_cons_self), fun before after hTaken => ?_⟩
    cases hTaken
    exact hPayload ▸ plans_standing hTracked hPayload before
  | run recorded =>
    refine ⟨_, mem_cons_of_mem _ (mem_cons_of_mem _ (mem_cons_of_mem _ mem_cons_self)),
      fun before after hTaken => ?_⟩
    cases hTaken
    exact hPayload ▸ runs_standing hTracked hPayload before
  | _ => exact hPayload ▸ hIdle hPayload (fun _ => rfl) (fun _ _ => rfl) rfl

theorem projectors_standing (hTracked : envelope.payload.isTracked = true)
    (h : Stateful.inTurn (projectors env envelope) db = (outcome, db')) :
    (outcome ≠ .ok () ∧ db'.standing = db.standing) ∨ db'.standing = Event.stand db.standing envelope.payload := by
  have hSteps : ∀ step ∈ projectors env envelope, ∀ before after, step before = .ok after → ∀ standing,
      before.standing = standing → after.standing = standing ∨ after.standing = Event.stand standing envelope.payload := by
    rintro step hStep before after hTaken _ rfl
    exact projectors_standsBy hTracked hStep hTaken
  obtain ⟨step, hStep, hDoes⟩ := @exists_projector env envelope hTracked
  exact inTurn_shows (fun _ => Event.stand_twice) hSteps
    ⟨step, hStep, fun before after hTaken _ hIs => hIs ▸ hDoes before after hTaken⟩ h rfl

theorem applyEvents_standing (hTracked : ∀ envelope ∈ envelopes, envelope.payload.isTracked = true)
    (h : applyEvents env envelopes db = (.ok (), db')) :
    db'.standing = standingAfter (envelopes.map EventEnvelope.payload) db.standing := by
  obtain ⟨taken, left, hSplit, hAll, hFold⟩ := inTurn_fold Database.standing
    (fun before envelope => Event.stand before envelope.payload)
    (fun envelope hMem _ _ _ hRun => projectors_standing (hTracked envelope hMem) hRun) h
  rw [hFold, hSplit, hAll rfl, append_nil, standingAfter, foldl_map]

end Projections

namespace AutoAppend

theorem autoAppendLogs_standing {config : Config} {env : Env} (db : Database) (envelopes : List EventEnvelope) :
    (autoAppendLogs config env db envelopes).standing = db.standing := by
  obtain ⟨_, _, _, _, _, _, hLines, _⟩ := autoAppendLogs_lines envelopes db
  rw [hLines]
  rfl

end AutoAppend
end Daruma
