import Daruma.Core.PlanOverlay

/-! Which plans are open and which runs are active, through the events of a batch. A
batch that stops halfway leaves what a first part of its events makes of them. -/
namespace Daruma

open KeyedTable List

/-- The plan is neither closed nor archived. -/
def PlanStatus.IsOpen (status : PlanStatus) : Prop := status ≠ .completed ∧ status ≠ .abandoned

/-- Each plan with whether it is archived, and the plan of each run while it is active. -/
structure Duty where
  plan : PlanId → Option (PlanStatus × Bool)
  run : RunId → Option (PlanId × Bool)

def Plan.duty (plan : Plan) : PlanStatus × Bool := (plan.status, plan.archivedAt.isSome)

def Database.duty (db : Database) : Duty where
  plan id := (db.plans.find? id).map Plan.duty
  run id := (db.runs.find? id).map Run.standing

namespace Duty

def Open (duty : Duty) (id : PlanId) : Prop := ∃ status, duty.plan id = some (status, false) ∧ status.IsOpen

def Kept (duty : Duty) : Prop := ∀ id planId, duty.run id = some (planId, true) → duty.Open planId

end Duty

namespace Event

def dutyPlan (event : Event) (id : PlanId) (plan : Option (PlanStatus × Bool)) : Option (PlanStatus × Bool) :=
  match event with
  | .plan (.planCreated created) => if created.id = id then some created.duty else plan
  | .plan (.planStatusChanged planId _ toStatus) =>
    if planId = id then plan.map fun plan => (toStatus, plan.2) else plan
  | .plan (.planArchived planId _) => if planId = id then plan.map fun _ => (.abandoned, true) else plan
  | .plan (.planDeleted planId _) => if planId = id then none else plan
  | _ => plan

def dutyRun (event : Event) (id : RunId) (run : Option (PlanId × Bool)) : Option (PlanId × Bool) :=
  match event with
  | .run (.runStarted started) => if started.id = id then some started.standing else run
  | event => event.onRun id run

def onDuty (before : Duty) (event : Event) : Duty where
  plan id := event.dutyPlan id (before.plan id)
  run id := event.dutyRun id (before.run id)

def shuts : Event → Option PlanId
  | .plan (.planStatusChanged planId _ toStatus) =>
    if toStatus = .completed ∨ toStatus = .abandoned then some planId else none
  | .plan (.planArchived planId _) | .plan (.planDeleted planId _) => some planId
  | _ => none

variable {event : Event} {before : Duty}

theorem dutyPlan_twice (id : PlanId) (plan : Option (PlanStatus × Bool)) :
    event.dutyPlan id (event.dutyPlan id plan) = event.dutyPlan id plan := by
  cases event with
  | plan event =>
    cases event with
    | planCreated created =>
      by_cases hIs : created.id = id
      · simp [dutyPlan, hIs]
      · simp [dutyPlan, hIs]
    | planStatusChanged planId | planArchived planId | planDeleted planId =>
      by_cases hIs : planId = id
      · simp [dutyPlan, hIs, Function.comp_def]
      · simp [dutyPlan, hIs]
    | _ => rfl
  | _ => rfl

theorem dutyRun_twice (id : RunId) (run : Option (PlanId × Bool)) :
    event.dutyRun id (event.dutyRun id run) = event.dutyRun id run := by
  cases event with
  | run event =>
    cases event with
    | runStarted started =>
      by_cases hIs : started.id = id
      · simp [dutyRun, hIs]
      · simp [dutyRun, hIs]
    | _ => exact onRun_twice id run
  | _ => exact onRun_twice id run

theorem onDuty_twice : onDuty (onDuty before event) event = onDuty before event := by
  unfold onDuty
  congr 1
  · funext id
    exact dutyPlan_twice id _
  · funext id
    exact dutyRun_twice id _

theorem onDuty_of_other (hPlan : ∀ recorded, event ≠ .plan recorded) (hRun : ∀ recorded, event ≠ .run recorded) :
    onDuty before event = before := by
  cases event with
  | plan recorded => exact absurd rfl (hPlan recorded)
  | run recorded => exact absurd rfl (hRun recorded)
  | _ => rfl

end Event

namespace PlanRepo

variable {db : Database} {env : Env} {envelope : EventEnvelope}

theorem duty_eq {before after : Database} (hRuns : after.runs = before.runs)
    (hPlans : ∀ id, (after.plans.find? id).map Plan.duty = (before.plans.find? id).map Plan.duty) :
    after.duty = before.duty := by
  unfold Database.duty
  rw [hRuns]
  congr 1
  exact funext hPlans

theorem duty_modify {id planId : PlanId} {f : Plan → Plan} (g : PlanStatus × Bool → PlanStatus × Bool)
    (hId : ∀ plan, (f plan).id = plan.id) (hDuty : ∀ plan, (f plan).duty = g plan.duty) :
    ((db.plans.modify planId f).find? id).map Plan.duty =
      if planId = id then ((db.plans.find? id).map Plan.duty).map g else (db.plans.find? id).map Plan.duty := by
  rw [find?_modify _ _ _ _ hId]
  split
  · rw [Option.map_map, Option.map_map]
    exact congrArg (Option.map · (db.plans.find? id)) (funext hDuty)
  · rfl

variable {planId : PlanId} {instant : Timestamp}

theorem duty_touchPlan : (touchPlan db planId instant).duty = db.duty := by
  refine duty_eq ?_ fun id => ?_
  · rfl
  have hTouched := @duty_modify db id planId
    (fun plan => if plan.updatedAt < instant then { plan with updatedAt := instant } else plan) (fun duty => duty)
    (fun plan => by split <;> rfl) (fun plan => by split <;> rfl)
  refine hTouched.trans ?_
  rw [Option.map_id']
  exact ite_self _

theorem duty_updatePlan {f : Plan → Plan} (hId : ∀ plan, (f plan).id = plan.id)
    (hDuty : ∀ plan, (f plan).duty = plan.duty) : (updatePlan db planId f).duty = db.duty := by
  refine duty_eq ?_ fun id => ?_
  · rfl
  have hUpdated := @duty_modify db id planId f (fun duty => duty) hId hDuty
  refine hUpdated.trans ?_
  rw [Option.map_id']
  exact ite_self _

theorem duty_applyPatch {patch : PlanPatch} : (applyPatch db env envelope planId patch).duty = db.duty := by
  unfold applyPatch
  cases hFound : db.plans.find? planId with
  | none => rfl
  | some plan =>
    have hReplaced : ∀ touched : Database, touched.duty = db.duty →
        Database.duty { touched with plans := touched.plans.insertOrReplace (patch.apply plan env.now) } = db.duty := by
      intro touched hSame
      rw [← hSame]
      refine duty_eq ?_ fun id => ?_
      · rfl
      rw [find?_insertOrReplace]
      split
      · rename_i hIs
        have hOld : touched.duty.plan id = some plan.duty := by
          rw [hSame, ← hIs]
          show (db.plans.find? plan.id).map Plan.duty = _
          rw [key_of_find? hFound, hFound]
          rfl
        exact hOld.symm
      · rfl
    dsimp only
    split
    · split
      · exact hReplaced _ duty_touchPlan
      · exact hReplaced _ rfl
    · exact hReplaced _ rfl

theorem duty_deletePlan :
    (deletePlan db planId instant).duty = Event.onDuty db.duty (.plan (.planDeleted planId instant)) := by
  have hErased : ∀ touched : Database, touched.duty = db.duty →
      Database.duty { touched with
        planTasks := touched.planTasks.filter fun member => member.planId ≠ planId
        plans := touched.plans.erase planId } = Event.onDuty db.duty (.plan (.planDeleted planId instant)) := by
    intro touched hSame
    rw [← hSame]
    unfold Database.duty Event.onDuty
    dsimp only
    congr 1
    funext id
    show _ = if planId = id then none else _
    split
    · rename_i hIs
      rw [hIs, find?_erase_self]
      rfl
    · rename_i hOther
      rw [find?_erase_of_ne _ (Ne.symm hOther)]
  unfold deletePlan
  dsimp only
  split
  · exact hErased _ duty_touchPlan
  · exact hErased _ rfl

theorem plans_reorder {position : Nat} {order : List TaskId} :
    (reorder db planId position order).plans = db.plans := by
  induction order generalizing db position with
  | nil => rfl
  | cons taskId rest ih => exact ih

theorem duty_applyPlanEvent {event : PlanEvent} :
    (applyPlanEvent db env envelope event).duty = Event.onDuty db.duty (.plan event) := by
  have hSame : ∀ {after : Database}, after.runs = db.runs → after.plans = db.plans → after.duty = db.duty := by
    intro after hRuns hPlans
    refine duty_eq hRuns fun id => ?_
    rw [hPlans]
  have hUpdated : ∀ {planId : PlanId} {f : Plan → Plan} (g : PlanStatus × Bool → PlanStatus × Bool),
      (∀ plan, (f plan).id = plan.id) → (∀ plan, (f plan).duty = g plan.duty) →
      (updatePlan db planId f).duty = { db.duty with
        plan := fun id => if planId = id then (db.duty.plan id).map g else db.duty.plan id } := by
    intro planId f g hId hDuty
    unfold updatePlan Database.duty
    dsimp only
    congr 1
    funext id
    exact duty_modify g hId hDuty
  cases event with
  | planCreated plan =>
    change Database.duty { db with plans := db.plans.insertOrReplace plan } = _
    unfold Database.duty Event.onDuty
    dsimp only
    congr 1
    funext id
    rw [find?_insertOrReplace]
    show _ = if plan.id = id then some plan.duty else _
    split
    · rfl
    · rfl
  | planUpdated => exact duty_applyPatch
  | planStatusChanged planId fromStatus toStatus =>
    exact hUpdated (fun plan => (toStatus, plan.2)) (fun _ => rfl) fun _ => rfl
  | planArchived planId instant => exact hUpdated (fun _ => (.abandoned, true)) (fun _ => rfl) fun _ => rfl
  | planGoalChanged => exact duty_updatePlan (fun _ => rfl) fun _ => rfl
  | planSourceSet =>
    refine duty_updatePlan (fun plan => ?_) fun plan => ?_
    · split <;> rfl
    · split <;> rfl
  | planTaskAdded planId taskId position dependsOn =>
    show (addTask db planId taskId position dependsOn).duty = db.duty
    unfold addTask
    dsimp only
    split
    · exact hSame rfl rfl
    · exact hSame rfl rfl
  | planTaskRemoved => exact hSame rfl rfl
  | planReordered planId order =>
    obtain ⟨tasks, plans, planTasks, sources, hFrame⟩ := reorder_frame db planId 0 order
    refine hSame ?_ plans_reorder
    show (reorder db planId 0 order).runs = db.runs
    rw [hFrame]
  | planDeleted planId instant => exact duty_deletePlan
  | sourceUpserted source =>
    show (upsertSource db source).duty = db.duty
    unfold upsertSource
    split
    · exact hSame rfl rfl
    · exact hSame rfl rfl
  | planTaskAmended | planModifiedByHuman => rfl

end PlanRepo

namespace RunRepo

variable {db : Database}

variable {id : RunId} {f : Run → Run}

theorem duty_updateRun (g : PlanId × Bool → PlanId × Bool) (hId : ∀ run, (f run).id = run.id)
    (hStanding : ∀ run, (f run).standing = g run.standing) : (updateRun db id f).duty = { db.duty with
      run := fun other => if id = other then (db.duty.run other).map g else db.duty.run other } := by
  unfold updateRun Database.duty
  dsimp only
  congr 1
  funext other
  rw [find?_modify _ _ _ _ hId]
  split
  · rw [Option.map_map, Option.map_map]
    exact congrArg (Option.map · (db.runs.find? other)) (funext hStanding)
  · rfl

theorem duty_updateRun_same (hId : ∀ run, (f run).id = run.id)
    (hStanding : ∀ run, (f run).standing = run.standing) : (updateRun db id f).duty = db.duty := by
  rw [duty_updateRun (fun standing => standing) hId hStanding]
  simp only [Option.map_id', ite_self]

theorem duty_applyRunEvent {event : RunEvent} : (applyRunEvent db event).duty = Event.onDuty db.duty (.run event) := by
  have hTouched : ∀ {id : RunId} {instant : Timestamp}, (touchActivity db id instant).duty = db.duty := by
    intro id instant
    exact duty_updateRun_same (fun _ => rfl) fun _ => rfl
  have hEnded : ∀ {id : RunId} {status : RunStatus} {reason : String} {instant : Timestamp}, status ≠ .active →
      (updateRun db id (endRun status reason instant)).duty = { db.duty with
        run := fun other => if some id = some other then (db.duty.run other).map fun run => (run.1, false)
          else db.duty.run other } := by
    intro id status reason instant hEnded
    simp only [Option.some.injEq]
    refine duty_updateRun _ (fun _ => ?_) fun run => ?_
    · rfl
    · exact congrArg (Prod.mk run.planId) (decide_eq_false hEnded)
  cases event with
  | runStarted run =>
    show (upsertRun db run).duty = _
    unfold upsertRun Database.duty Event.onDuty
    dsimp only
    congr 1
    funext id
    rw [find?_insertOrReplace]
    show _ = if run.id = id then some run.standing else _
    split
    · rfl
    · rfl
  | runStepStarted id taskId instant => exact hTouched
  | runStepFinished id taskId outcome instant =>
    show (finishStepRow (touchActivity db id instant) id taskId outcome instant).duty = db.duty
    unfold finishStepRow
    dsimp only
    split
    · exact hTouched
    · exact hTouched
  | runCompleted | runFailed | runAborted => exact hEnded fun hIs => by cases hIs
  | runUnresponsive | runStale => exact duty_updateRun_same (fun _ => rfl) fun _ => rfl
  | _ => rfl

end RunRepo

namespace Projections

variable {env : Env} {envelope : EventEnvelope} {envelopes : List EventEnvelope} {db db' : Database}
  {outcome : Except CoreError Unit} {event : Event}

def ServesBy (event : Event) (before after : Database) : Prop :=
  after.duty = before.duty ∨ after.duty = Event.onDuty before.duty event

theorem ServesBy.trans {first second third : Database} (h : ServesBy event first second)
    (h' : ServesBy event second third) : ServesBy event first third := by
  unfold ServesBy at *
  rcases h with hSame | hTaken
  · rw [hSame] at h'
    exact h'
  · rw [hTaken, Event.onDuty_twice] at h'
    exact .inr (h'.elim id id)

theorem plans_duty {recorded : PlanEvent} (hPayload : envelope.payload = .plan recorded) (db : Database) :
    (PlanRepo.applyEvent db env envelope).duty = Event.onDuty db.duty envelope.payload := by
  unfold PlanRepo.applyEvent
  rw [hPayload]
  exact PlanRepo.duty_applyPlanEvent

theorem runs_duty {recorded : RunEvent} (hPayload : envelope.payload = .run recorded) (db : Database) :
    (RunRepo.applyEvent db envelope).duty = Event.onDuty db.duty envelope.payload := by
  unfold RunRepo.applyEvent
  rw [hPayload]
  exact RunRepo.duty_applyRunEvent

theorem ServesBy.work (event : Event) : WorkRelation (ServesBy event) where
  trans _ _ _ := .trans
  same before after h := by
    refine .inl ?_
    unfold Database.duty
    rw [h.plans, h.runs]

theorem projectors_servesBy {step : Database → Result Database} (hStep : step ∈ projectors env envelope)
    (h : step db = .ok db') : ServesBy envelope.payload db db' := by
  refine projectors_work (ServesBy.work _) (fun recorded hIs db => .inr ?_) (fun recorded hIs db => .inr ?_) hStep h
  · rw [hIs]
    exact PlanRepo.duty_applyPlanEvent
  · rw [hIs]
    exact RunRepo.duty_applyRunEvent

theorem exists_duty_projector : ∃ step ∈ projectors env envelope,
    ∀ before after, step before = .ok after → after.duty = Event.onDuty before.duty envelope.payload := by
  have hIdle : (∀ before, Event.onDuty before envelope.payload = before) → ∃ step ∈ projectors env envelope,
      ∀ before after, step before = .ok after → after.duty = Event.onDuty before.duty envelope.payload := by
    intro hOther
    refine ⟨_, mem_cons_of_mem _ mem_cons_self, fun before after hTaken => ?_⟩
    cases hTaken
    exact (hOther before.duty).symm
  cases hPayload : envelope.payload with
  | plan recorded =>
    refine ⟨_, mem_cons_of_mem _ (mem_cons_of_mem _ mem_cons_self), fun before after hTaken => ?_⟩
    cases hTaken
    exact hPayload ▸ plans_duty hPayload before
  | run recorded =>
    refine ⟨_, mem_cons_of_mem _ (mem_cons_of_mem _ (mem_cons_of_mem _ mem_cons_self)),
      fun before after hTaken => ?_⟩
    cases hTaken
    exact hPayload ▸ runs_duty hPayload before
  | _ =>
    rw [hPayload] at hIdle
    exact hIdle fun before => Event.onDuty_of_other (fun _ hIs => by cases hIs) fun _ hIs => by cases hIs

theorem projectors_duty (h : Stateful.inTurn (projectors env envelope) db = (outcome, db')) :
    (outcome ≠ .ok () ∧ db'.duty = db.duty) ∨ db'.duty = Event.onDuty db.duty envelope.payload := by
  have hSteps : ∀ step ∈ projectors env envelope, ∀ before after, step before = .ok after → ∀ duty,
      before.duty = duty → after.duty = duty ∨ after.duty = Event.onDuty duty envelope.payload := by
    rintro step hStep before after hTaken _ rfl
    exact projectors_servesBy hStep hTaken
  obtain ⟨step, hStep, hDoes⟩ := @exists_duty_projector env envelope
  exact Stateful.inTurn_shows (fun _ => Event.onDuty_twice) hSteps
    ⟨step, hStep, fun before after hTaken _ hIs => hIs ▸ hDoes before after hTaken⟩ h rfl

theorem applyEvents_duty (h : applyEvents env envelopes db = (outcome, db')) : ∃ taken left,
    envelopes.map EventEnvelope.payload = taken ++ left ∧ db'.duty = taken.foldl Event.onDuty db.duty := by
  obtain ⟨taken, left, hSplit, _, hFold⟩ := Stateful.inTurn_fold Database.duty
    (fun before envelope => Event.onDuty before envelope.payload)
    (fun envelope _ _ _ _ hRun => projectors_duty hRun) h
  refine ⟨taken.map EventEnvelope.payload, left.map EventEnvelope.payload, ?_, ?_⟩
  · rw [hSplit, map_append]
  · rw [hFold, foldl_map]

end Projections

def Spared (events : List Event) (planId : PlanId) (id : RunId) : Prop :=
  ∃ before after, events = before ++ after ∧ (∀ event ∈ before, event.shuts ≠ some planId) ∧
    ((∃ event ∈ before, event.endedRun = some id) ∨ ∀ event ∈ after, event.shuts ≠ some planId)

/-- What makes the events of a batch leave active runs on open plans, each after
the others. -/
structure Safe (duty : Duty) (events : List Event) : Prop where
  kept : duty.Kept
  spared : ∀ planId id, duty.run id = some (planId, true) → Spared events planId id
  started : ∀ run, .run (.runStarted run) ∈ events →
    duty.Open run.planId ∧ ∀ event ∈ events, event.shuts ≠ some run.planId
  created : ∀ plan, .plan (.planCreated plan) ∈ events → plan.status.IsOpen ∧ plan.archivedAt = none

namespace Event

variable {event : Event} {duty : Duty}

variable {planId : PlanId}

theorem onDuty_active {id : RunId} (h : (onDuty duty event).run id = some (planId, true)) :
    (duty.run id = some (planId, true) ∧ event.endedRun ≠ some id) ∨
      ∃ run, event = .run (.runStarted run) ∧ run.planId = planId := by
  have hOther : event.onRun id (duty.run id) = some (planId, true) →
      duty.run id = some (planId, true) ∧ event.endedRun ≠ some id := by
    unfold onRun
    split
    · intro hEnded
      obtain ⟨run, _, hRun⟩ := Option.map_eq_some_iff.mp hEnded
      cases hRun
    · exact fun hActive => ⟨hActive, ‹_›⟩
  cases event with
  | run event =>
    cases event with
    | runStarted run =>
      change (if run.id = id then some run.standing else duty.run id) = _ at h
      split at h
      · exact .inr ⟨run, rfl, congrArg Prod.fst (Option.some.inj h)⟩
      · exact .inl ⟨h, fun hIs => by cases hIs⟩
    | _ => exact .inl (hOther h)
  | _ => exact .inl (hOther h)

theorem onDuty_open (h : duty.Open planId) (hOpen : event.shuts ≠ some planId)
    (hCreated : ∀ plan, event = .plan (.planCreated plan) → plan.status.IsOpen ∧ plan.archivedAt = none) :
    (onDuty duty event).Open planId := by
  obtain ⟨status, hPlan, hStatus⟩ := h
  cases event with
  | plan event =>
    cases event with
    | planCreated plan =>
      obtain ⟨hNew, hUnarchived⟩ := hCreated plan rfl
      by_cases hIs : plan.id = planId
      · refine ⟨plan.status, (if_pos hIs).trans ?_, hNew⟩
        rw [Plan.duty, hUnarchived]
        rfl
      · exact ⟨status, (if_neg hIs).trans hPlan, hStatus⟩
    | planStatusChanged id fromStatus toStatus =>
      by_cases hIs : id = planId
      · refine ⟨toStatus, (if_pos hIs).trans (congrArg (Option.map _) hPlan), ?_⟩
        by_contra hShuts
        apply hOpen
        simp only [shuts, hIs]
        apply if_pos
        simpa [PlanStatus.IsOpen, or_iff_not_imp_left] using hShuts
      · exact ⟨status, (if_neg hIs).trans hPlan, hStatus⟩
    | planArchived id | planDeleted id =>
      have hOther : id ≠ planId := fun hIs => hOpen (congrArg some hIs)
      exact ⟨status, (if_neg hOther).trans hPlan, hStatus⟩
    | _ => exact ⟨status, hPlan, hStatus⟩
  | _ => exact ⟨status, hPlan, hStatus⟩

theorem onDuty_started {run : Run} (h : duty.Open planId) : (onDuty duty (.run (.runStarted run))).Open planId := h

end Event

namespace Safe

variable {duty : Duty} {event : Event} {events rest taken left : List Event}

theorem spared_tail {planId : PlanId} {id : RunId} (h : Spared (event :: rest) planId id)
    (hActive : event.endedRun ≠ some id) : event.shuts ≠ some planId ∧ Spared rest planId id := by
  obtain ⟨before, after, hSplit, hBefore, hAfter⟩ := h
  cases before with
  | nil =>
    obtain rfl : event :: rest = after := hSplit
    have hNone := hAfter.resolve_left fun ⟨_, hMem, _⟩ => absurd hMem not_mem_nil
    obtain ⟨hFirst, hRest⟩ := forall_mem_cons.mp hNone
    exact ⟨hFirst, [], rest, rfl, fun _ hMem => absurd hMem not_mem_nil, .inr hRest⟩
  | cons first before =>
    obtain ⟨rfl, rfl⟩ := List.cons.inj hSplit
    obtain ⟨hFirst, hBefore⟩ := forall_mem_cons.mp hBefore
    refine ⟨hFirst, before, after, rfl, hBefore, hAfter.imp_left ?_⟩
    rintro ⟨ending, hMem, hEnds⟩
    rcases mem_cons.mp hMem with rfl | hMem
    · exact absurd hEnds hActive
    · exact ⟨ending, hMem, hEnds⟩

theorem tail (h : Safe duty (event :: rest)) : Safe (Event.onDuty duty event) rest := by
  have hCreated : ∀ plan, event = .plan (.planCreated plan) → plan.status.IsOpen ∧ plan.archivedAt = none := by
    rintro plan rfl
    exact h.created plan mem_cons_self
  refine ⟨fun id planId hRun => ?_, fun planId id hRun => ?_, fun run hMem => ?_, fun plan hMem => ?_⟩
  · rcases Event.onDuty_active hRun with ⟨hActive, hStays⟩ | ⟨run, rfl, rfl⟩
    · exact Event.onDuty_open (h.kept id planId hActive) (spared_tail (h.spared planId id hActive) hStays).1 hCreated
    · exact Event.onDuty_started (h.started run mem_cons_self).1
  · rcases Event.onDuty_active hRun with ⟨hActive, hStays⟩ | ⟨run, rfl, rfl⟩
    · exact (spared_tail (h.spared planId id hActive) hStays).2
    · refine ⟨[], rest, rfl, fun _ hMem => absurd hMem not_mem_nil, .inr fun event hMem => ?_⟩
      exact (h.started run mem_cons_self).2 event (mem_cons_of_mem _ hMem)
  · obtain ⟨hOpen, hStays⟩ := h.started run (mem_cons_of_mem _ hMem)
    obtain ⟨hFirst, hRest⟩ := forall_mem_cons.mp hStays
    exact ⟨Event.onDuty_open hOpen hFirst hCreated, hRest⟩
  · exact h.created plan (mem_cons_of_mem _ hMem)

theorem kept_foldl (h : Safe duty (taken ++ left)) : (taken.foldl Event.onDuty duty).Kept := by
  induction taken generalizing duty with
  | nil => exact h.kept
  | cons event rest ih => exact ih h.tail

end Safe
end Daruma
