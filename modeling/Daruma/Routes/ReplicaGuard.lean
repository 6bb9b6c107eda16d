import Daruma.Core.Runs
import Daruma.Routes.ReplicaEvents
import Daruma.Storage.PlanSteps

/-! What the events of a replica leave alone: runs, their steps, claims, and whether a
plan has come to its end. -/
namespace Daruma

open KeyedTable Stateful

def Plan.ending (plan : Plan) : PlanStatus × Bool := (plan.status, plan.archivedAt.isSome)

def Database.planEnding (db : Database) (id : PlanId) : Option (PlanStatus × Bool) :=
  (db.plans.find? id).map Plan.ending

namespace PlanRepo

variable {db : Database} {env : Env} {envelope : EventEnvelope} {planId : PlanId}

variable {f : Plan → Plan} {position : Nat}

theorem planEnding_updatePlan (g : PlanStatus × Bool → PlanStatus × Bool) (hId : ∀ plan, (f plan).id = plan.id)
    (hEnding : ∀ plan, (f plan).ending = g plan.ending) (id : PlanId) :
    (updatePlan db planId f).planEnding id = if planId = id then (db.planEnding id).map g else db.planEnding id := by
  unfold Database.planEnding updatePlan
  rw [find?_modify _ _ _ _ hId]
  split
  · rw [Option.map_map, Option.map_map]
    exact congrArg (Option.map · (db.plans.find? id)) (funext hEnding)
  · rfl

theorem planEnding_keeping (hId : ∀ plan, (f plan).id = plan.id)
    (hEnding : ∀ plan, (f plan).ending = plan.ending) (id : PlanId) :
    (updatePlan db planId f).planEnding id = db.planEnding id := by
  rw [planEnding_updatePlan (fun ending => ending) hId hEnding, Option.map_id', ite_self]

theorem planEnding_touchPlan {instant : Timestamp} (id : PlanId) :
    (touchPlan db planId instant).planEnding id = db.planEnding id := by
  refine planEnding_keeping (fun plan => ?_) (fun plan => ?_) id
  · split <;> rfl
  · split <;> rfl

theorem planEnding_addTask {taskId : TaskId} {dependsOn : List TaskId} (id : PlanId) :
    (addTask db planId taskId position dependsOn).planEnding id = db.planEnding id := by
  unfold addTask
  dsimp only
  split <;> rfl

theorem planEnding_reorder {order : List TaskId} (id : PlanId) :
    (reorder db planId position order).planEnding id = db.planEnding id := by
  induction order generalizing db position with
  | nil => rfl
  | cons taskId rest ih => exact ih

theorem planEnding_upsertSource {source : SourceNode} (id : PlanId) :
    (upsertSource db source).planEnding id = db.planEnding id := by
  unfold upsertSource
  split <;> rfl

theorem planEnding_applyPatch {patch : PlanPatch} (id : PlanId) :
    (applyPatch db env envelope planId patch).planEnding id = db.planEnding id := by
  unfold applyPatch
  split
  · rfl
  · rename_i plan hFound
    have hWritten : ∀ touched : Database, touched.planEnding id = db.planEnding id →
        Database.planEnding { touched with plans := touched.plans.insertOrReplace (patch.apply plan env.now) } id =
          db.planEnding id := by
      intro touched hSame
      unfold Database.planEnding
      rw [find?_insertOrReplace]
      split
      · rename_i hIs
        rw [← hIs, PlanPatch.apply_id, key_of_find? hFound, hFound]
        rfl
      · exact hSame
    dsimp only
    split
    · split
      · exact hWritten _ (planEnding_touchPlan id)
      · exact hWritten _ rfl
    · exact hWritten _ rfl

def sentEnding (event : PlanEvent) (id : PlanId) (before : Option (PlanStatus × Bool)) : Option (PlanStatus × Bool) :=
  match event with
  | .planCreated plan => if plan.id = id then some plan.ending else before
  | .planStatusChanged planId _ toStatus => if planId = id then before.map fun ending => (toStatus, ending.2) else before
  | _ => before

theorem planEnding_applyPlanEvent {event : PlanEvent} (h : ReplicaEvents.guardedReplicaEvent (.plan event) = false)
    (id : PlanId) : (applyPlanEvent db env envelope event).planEnding id = sentEnding event id (db.planEnding id) := by
  cases event with
  | planCreated plan =>
    change Option.map Plan.ending ((db.plans.insertOrReplace plan).find? id) = if plan.id = id then _ else _
    rw [find?_insertOrReplace]
    split <;> rfl
  | planUpdated planId patch => exact planEnding_applyPatch id
  | planStatusChanged planId fromStatus toStatus =>
    refine planEnding_updatePlan (fun ending => (toStatus, ending.2)) (fun _ => ?_) (fun _ => ?_) id
    · rfl
    · rfl
  | planGoalChanged planId fromGoal toGoal =>
    refine planEnding_keeping (fun _ => ?_) (fun _ => ?_) id
    · rfl
    · rfl
  | planTaskAdded planId taskId position dependsOn => exact planEnding_addTask id
  | planReordered planId order => exact planEnding_reorder id
  | planArchived | planDeleted => cases h
  | sourceUpserted source => exact planEnding_upsertSource id
  | planSourceSet planId sourceRef instant =>
    refine planEnding_keeping (fun plan => ?_) (fun plan => ?_) id
    · split <;> rfl
    · split <;> rfl
  | _ => rfl

end PlanRepo

namespace ReplicaEvents

variable {env : Env} {envelope : EventEnvelope} {db db' : Database} {events : List EventEnvelope}

def eventEnding (event : Event) (id : PlanId) (before : Option (PlanStatus × Bool)) : Option (PlanStatus × Bool) :=
  match event with
  | .plan event => PlanRepo.sentEnding event id before
  | _ => before

structure Applied (event : Event) (db db' : Database) : Prop where
  runs : db'.runs = db.runs
  runSteps : db'.runSteps = db.runSteps
  agentClaims : db'.agentClaims = db.agentClaims
  ending : ∀ id, db'.planEnding id = eventEnding event id (db.planEnding id)

/-- The tables that tell of runs, claims and the ends of plans. -/
def SameRecords (db db' : Database) : Prop :=
  db'.runs = db.runs ∧ db'.runSteps = db.runSteps ∧ db'.agentClaims = db.agentClaims ∧ db'.plans = db.plans

theorem applyRunEvent_sent {event : RunEvent} (h : guardedReplicaEvent (.run event) = false) :
    RunRepo.applyRunEvent db event = db := by
  cases event <;> first | rfl | cases h

/-- An event that a replica may send changes the end of plans only, and does so in
the projection of plans, whatever the other projections answer. -/
theorem applyPersistedEvent_applied (h : guardedReplicaEvent envelope.payload = false) {outcome : Except CoreError Unit}
    (hApplied : applyPersistedEvent env envelope db = (outcome, db')) :
    Applied envelope.payload db db' ∨ SameRecords db db' ∧ ∃ e, Projections.tasks env envelope db = .error e := by
  rcases inTurn_cons hApplied with ⟨e, hTasks, _, rfl⟩ | ⟨tasked, hTasks, hRest⟩
  · exact .inr ⟨⟨rfl, rfl, rfl, rfl⟩, e, hTasks⟩
  left
  obtain ⟨written, _, rfl⟩ := Projections.tasks_ok hTasks
  rcases inTurn_cons hRest with ⟨e, hRecords, _, _⟩ | ⟨recorded, hRecords, hRest⟩
  · cases hRecords
  cases hRecords
  rcases inTurn_cons hRest with ⟨e, hPlans, _, _⟩ | ⟨planned, hPlans, hRest⟩
  · cases hPlans
  obtain rfl := Except.ok.inj hPlans
  generalize hPlanned : PlanRepo.applyEvent (Projections.records envelope { db with tasks := written }) env envelope =
    planned at hRest
  have hMiddle : Applied envelope.payload db planned := by
    obtain ⟨tasks, plans, planTasks, sources, hFrame⟩ :=
      PlanRepo.applyEvent_frame (Projections.records envelope { db with tasks := written }) env envelope
    refine ⟨?_, ?_, ?_, fun id => ?_⟩
    · rw [← hPlanned, hFrame]
      rfl
    · rw [← hPlanned, hFrame]
      rfl
    · rw [← hPlanned, hFrame]
      rfl
    · rw [← hPlanned]
      unfold PlanRepo.applyEvent eventEnding
      cases hPayload : envelope.payload with
      | plan event =>
        rw [hPayload] at h
        exact PlanRepo.planEnding_applyPlanEvent h id
      | _ => rfl
  -- the projections after that of plans leave all of it alone
  have hLater : SameRecords planned db' := by
    refine inTurn_rel (fun _ => ⟨rfl, rfl, rfl, rfl⟩) (fun first second third => ?_) ?_ hRest
    · rintro ⟨hRuns, hSteps, hClaims, hPlans⟩ ⟨hRuns', hSteps', hClaims', hPlans'⟩
      exact ⟨hRuns'.trans hRuns, hSteps'.trans hSteps, hClaims'.trans hClaims, hPlans'.trans hPlans⟩
    intro step hStep first last hRun
    simp only [List.mem_cons, List.not_mem_nil, or_false] at hStep
    rcases hStep with rfl | rfl | rfl | rfl | rfl
    · cases hRun
      unfold RunRepo.applyEvent
      split
      · rename_i event hPayload
        rw [hPayload] at h
        rw [applyRunEvent_sent h]
        exact ⟨rfl, rfl, rfl, rfl⟩
      · exact ⟨rfl, rfl, rfl, rfl⟩
    · obtain ⟨runNotes, rfl⟩ := RunNoteRepo.applyEvent_frame hRun
      exact ⟨rfl, rfl, rfl, rfl⟩
    · cases hRun
      obtain ⟨sessions, artifacts, hFrame⟩ := SessionRepo.applyEvent_frame first envelope
      rw [hFrame]
      exact ⟨rfl, rfl, rfl, rfl⟩
    · unfold AgentClaimRepo.applyEvent at hRun
      split at hRun
      · rename_i hPayload
        rw [hPayload] at h
        cases h
      · cases hRun
        exact ⟨rfl, rfl, rfl, rfl⟩
      · rename_i hPayload
        rw [hPayload] at h
        cases h
      · rename_i hPayload
        rw [hPayload] at h
        cases h
      · cases hRun
        exact ⟨rfl, rfl, rfl, rfl⟩
    · cases hRun
      exact ⟨rfl, rfl, rfl, rfl⟩
  obtain ⟨hRuns, hSteps, hClaims, hPlans⟩ := hLater
  refine ⟨hRuns.trans hMiddle.runs, hSteps.trans hMiddle.runSteps, hClaims.trans hMiddle.agentClaims, fun id => ?_⟩
  rw [← hMiddle.ending, Database.planEnding, hPlans]
  rfl

/-- Runs, their steps and claims stay, every plan stays, and none of them comes to an
end or is archived. -/
structure KeepsGuarded (db db' : Database) : Prop where
  runs : db'.runs = db.runs
  runSteps : db'.runSteps = db.runSteps
  agentClaims : db'.agentClaims = db.agentClaims
  plans : ∀ id status archived, db.planEnding id = some (status, archived) →
    ∃ status' archived', db'.planEnding id = some (status', archived') ∧
      (status' = .completed ∨ status' = .abandoned → status' = status) ∧ (archived' = true → archived = true)

/-- One event keeps what is guarded, and gives no plan that exists another status by
creating it again. -/
structure GuardHolds (envelope : EventEnvelope) (db db' : Database) : Prop where
  keeps : KeepsGuarded db db'
  recreated : ∀ plan, envelope.payload = .plan (.planCreated plan) → ∀ status archived,
    db.planEnding plan.id = some (status, archived) → (db'.planEnding plan.id).map Prod.fst = some status

/-- The log takes the event, and it creates a plan that exists, with another status or
archived. -/
def Recreates (db : Database) (envelope : EventEnvelope) : Prop :=
  (∃ persisted appended, appendOn db { envelope with seq := 0 } = .ok (persisted, appended)) ∧
    ∃ plan, envelope.payload = .plan (.planCreated plan) ∧ ∃ status archived,
      db.planEnding plan.id = some (status, archived) ∧
        (plan.status ≠ status ∨ (plan.archivedAt.isSome = true ∧ archived = false))

theorem KeepsGuarded.refl (db : Database) : KeepsGuarded db db :=
  ⟨rfl, rfl, rfl, fun _ status archived hEnding => ⟨status, archived, hEnding, fun _ => rfl, fun h => h⟩⟩

theorem KeepsGuarded.trans {first second third : Database} (h : KeepsGuarded first second)
    (h' : KeepsGuarded second third) : KeepsGuarded first third := by
  refine ⟨h'.runs.trans h.runs, h'.runSteps.trans h.runSteps, h'.agentClaims.trans h.agentClaims, ?_⟩
  intro id status archived hEnding
  obtain ⟨middle, middleArchived, hMiddle, hStatus, hArchived⟩ := h.plans id status archived hEnding
  obtain ⟨last, lastArchived, hLast, hStatus', hArchived'⟩ := h'.plans id middle middleArchived hMiddle
  refine ⟨last, lastArchived, hLast, fun hTerminal => ?_, fun hIs => hArchived (hArchived' hIs)⟩
  have hSame := hStatus' hTerminal
  exact hSame.trans (hStatus (hSame ▸ hTerminal))

theorem guardHolds_refl : GuardHolds envelope db db :=
  ⟨.refl db, fun _ _ _ _ hEnding => by rw [hEnding]; rfl⟩

theorem tasks_of_plan {event : PlanEvent} (h : envelope.payload = .plan event) :
    Projections.tasks env envelope db = .ok db := by
  unfold Projections.tasks TaskRepo.applyEvent
  rw [h]
  rfl

/-- The plan that the event creates is, where it exists, as it is created. -/
def AsCreated (db : Database) (envelope : EventEnvelope) : Prop :=
  ∀ plan, envelope.payload = .plan (.planCreated plan) → ∀ status archived,
    db.planEnding plan.id = some (status, archived) →
    plan.status = status ∧ (plan.archivedAt.isSome = true → archived = true)

theorem asCreated_of_not_recreates (hNot : ¬Recreates db envelope)
    (hTaken : ∃ persisted appended, appendOn db { envelope with seq := 0 } = .ok (persisted, appended)) :
    AsCreated db envelope := by
  intro plan hCreated status archived hBefore
  by_contra hDiffers
  refine hNot ⟨hTaken, plan, hCreated, status, archived, hBefore, ?_⟩
  by_cases hStatus : plan.status = status
  · right
    have hArchived : ¬(plan.archivedAt.isSome = true → archived = true) := fun hIs => hDiffers ⟨hStatus, hIs⟩
    cases archived with
    | true => exact absurd (fun _ => rfl) hArchived
    | false =>
      refine ⟨?_, rfl⟩
      by_contra hNone
      exact hArchived fun hIs => absurd hIs hNone
  · exact .inl hStatus

theorem AsCreated.ending {id : PlanId} {status : PlanStatus} {archived : Bool} (hCreated : AsCreated db envelope)
    (h : guardedReplicaEvent envelope.payload = false) (hBefore : db.planEnding id = some (status, archived)) :
    ∃ status' archived', eventEnding envelope.payload id (some (status, archived)) = some (status', archived') ∧
      (status' = .completed ∨ status' = .abandoned → status' = status) ∧ (archived' = true → archived = true) := by
  cases hKind : envelope.payload with
  | plan event =>
    cases event with
    | planCreated plan =>
      change ∃ status' archived', (if plan.id = id then some plan.ending else some (status, archived)) =
        some (status', archived') ∧ _
      split
      · rename_i hIs
        obtain ⟨hStatus, hArchived⟩ := hCreated plan hKind status archived (hIs ▸ hBefore)
        exact ⟨_, _, rfl, fun _ => hStatus, hArchived⟩
      · exact ⟨status, archived, rfl, fun _ => rfl, fun hIs => hIs⟩
    | planStatusChanged planId fromStatus toStatus =>
      rw [hKind] at h
      change ∃ status' archived', (if planId = id then some (toStatus, archived) else some (status, archived)) =
        some (status', archived') ∧ _
      split
      · refine ⟨toStatus, archived, rfl, fun hTerminal => ?_, fun hIs => hIs⟩
        have hOpen : (toStatus = .completed || toStatus = .abandoned : Bool) = false := h
        rcases hTerminal with rfl | rfl
        · cases hOpen
        · cases hOpen
      · exact ⟨status, archived, rfl, fun _ => rfl, fun hIs => hIs⟩
    | _ => exact ⟨status, archived, rfl, fun _ => rfl, fun hIs => hIs⟩
  | _ => exact ⟨status, archived, rfl, fun _ => rfl, fun hIs => hIs⟩

/-- The events of a replica keep what is guarded, but for those that create a plan
once more. -/
theorem guardHolds_iff (h : guardedReplicaEvent envelope.payload = false) :
    GuardHolds envelope db (takeIn env envelope db).2 ↔ ¬Recreates db envelope := by
  cases hTaken : takeIn env envelope db with
  | mk outcome after =>
  dsimp only
  cases takesIn hTaken with
  | @duplicate existing hFound =>
    refine ⟨fun _ => ?_, fun _ => guardHolds_refl⟩
    rintro ⟨⟨persisted, appended, hAppended⟩, _⟩
    exact absurd ((appendOn_ok hAppended).2.1.symm.trans hFound) nofun
  | refused hNew hRefused =>
    refine ⟨fun _ => ?_, fun _ => guardHolds_refl⟩
    rintro ⟨⟨persisted, appended, hAppended⟩, _⟩
    cases hRefused.symm.trans hAppended
  | @appended persisted appended _ _ hNew hAppended hApplied =>
    obtain ⟨hPersisted, _, _, _, events, latestSeq, rfl⟩ := appendOn_ok hAppended
    have hPayload : persisted.payload = envelope.payload := by rw [hPersisted]
    rcases applyPersistedEvent_applied (by rw [hPayload]; exact h) hApplied with hEvent | ⟨hSame, e, hTasks⟩
    · rw [hPayload] at hEvent
      have hEnding : ∀ id, after.planEnding id = eventEnding envelope.payload id (db.planEnding id) := hEvent.ending
      constructor
      · rintro ⟨hKeeps, hRecreated⟩ ⟨_, plan, hCreated, status, archived, hBefore, hDiffers⟩
        have hAfter := hEnding plan.id
        rw [hCreated] at hAfter
        have hIs : after.planEnding plan.id = some plan.ending := hAfter.trans (if_pos rfl)
        obtain ⟨status', archived', hLater, _, hArchived⟩ := hKeeps.plans plan.id status archived hBefore
        cases hIs.symm.trans hLater
        have hStatus := hRecreated plan hCreated status archived hBefore
        rw [hIs] at hStatus
        rcases hDiffers with hOther | ⟨hNow, hNot⟩
        · exact hOther (Option.some.inj hStatus)
        · exact Bool.false_ne_true (hNot.symm.trans (hArchived hNow))
      · intro hNot
        have hPlanCreated := asCreated_of_not_recreates hNot ⟨_, _, hAppended⟩
        refine ⟨⟨hEvent.runs, hEvent.runSteps, hEvent.agentClaims, fun id status archived hBefore => ?_⟩,
          fun plan hCreated status archived hBefore => ?_⟩
        · rw [hEnding, hBefore]
          exact hPlanCreated.ending h hBefore
        · rw [hEnding, hCreated]
          change Option.map Prod.fst (if plan.id = plan.id then some plan.ending else _) = _
          rw [if_pos rfl, Option.map_some]
          exact congrArg some (hPlanCreated plan hCreated status archived hBefore).1
    · obtain ⟨hRuns, hSteps, hClaims, hPlans⟩ := hSame
      have hEnding : ∀ id, after.planEnding id = db.planEnding id := by
        intro id
        unfold Database.planEnding
        rw [hPlans]
      -- the event is about no plan, as the projection of tasks refused it
      have hOther : ∀ plan, envelope.payload ≠ .plan (.planCreated plan) := by
        intro plan hCreated
        cases hTasks.symm.trans (tasks_of_plan (hPayload.trans hCreated))
      refine ⟨fun _ => ?_, fun _ => ⟨⟨hRuns, hSteps, hClaims, ?_⟩, fun plan hCreated => absurd hCreated (hOther plan)⟩⟩
      · rintro ⟨_, plan, hCreated, _⟩
        exact hOther plan hCreated
      · intro id status archived hBefore
        exact ⟨status, archived, (hEnding id).trans hBefore, fun _ => rfl, fun hIs => hIs⟩

/-- The events of an admitted request each keep what is guarded, unless one creates a
plan once more. Without such an event the whole request keeps it. -/
theorem replica_guard_iff {canWriteTasks : Bool} (hAdmitted : admissible canWriteTasks events = .ok ()) :
    (EachTaken env (fun db envelope => GuardHolds envelope db (takeIn env envelope db).2) db events ↔
      EachTaken env (fun db envelope => ¬Recreates db envelope) db events) ∧
    (EachTaken env (fun db envelope => ¬Recreates db envelope) db events →
      KeepsGuarded db (appendReplicaEvents env canWriteTasks events db).2) := by
  have hIff := @EachTaken.iff env db events _ _ fun envelope hMem db =>
    @guardHolds_iff env envelope db (sent_of_admissible hAdmitted envelope hMem)
  refine ⟨hIff, fun hNone => ?_⟩
  rw [appendReplicaEvents, bind_eq]
  dsimp only [lift]
  rw [hAdmitted]
  exact (hIff.mpr hNone).keeps .refl (fun _ _ _ => .trans) fun _ _ hHolds => hHolds.keeps

private def openPlan : Database := Server.run Server.engineConfig (Server.commands [
  .plan (.createPlan (NewPlan.new "plan" ⟨0⟩ .anyUser) none),
  .plan (.setPlanStatus ((Handler.builderEnv (Server.nthEnv 0)).fresh 0) .active false none)])

private def sent (id : EventId) (payload : Event) : EventEnvelope := ⟨id, 0, 0, .anyUser, none, 0, payload⟩

private def completedCopy : List Plan := openPlan.plans.rows.map fun plan => { plan with status := .completed }

private def sentCopy : List EventEnvelope := completedCopy.map fun plan => sent ⟨1⟩ (.plan (.planCreated plan))

/-- A replica that creates an open plan once more completes it. -/
theorem recreated_plan_completed : admissible true sentCopy = .ok () ∧
    ¬KeepsGuarded openPlan (appendReplicaEvents (Server.nthEnv 9) true sentCopy openPlan).2 := by
  refine ⟨by decide +kernel, fun hKeeps => ?_⟩
  have hBefore : openPlan.planEnding ((Handler.builderEnv (Server.nthEnv 0)).fresh 0) = some (.active, false) := by
    decide +kernel
  have hAfter : (appendReplicaEvents (Server.nthEnv 9) true sentCopy openPlan).2.planEnding
      ((Handler.builderEnv (Server.nthEnv 0)).fresh 0) = some (.completed, false) := by decide +kernel
  obtain ⟨status, archived, hEnding, hStatus, _⟩ := hKeeps.plans _ _ _ hBefore
  cases hAfter.symm.trans hEnding
  cases hStatus (.inl rfl)

/-- A task, and the open plan back in draft. -/
private def sentPause : List EventEnvelope := [sent ⟨1⟩ (.task (.taskCreated { NewTask.new "task" with id := some ⟨7⟩ })),
  sent ⟨2⟩ (.plan (.planStatusChanged ((Handler.builderEnv (Server.nthEnv 0)).fresh 0) .active .draft))]

theorem replica_guard_iff_pause : admissible true sentPause = .ok () ∧
    KeepsGuarded openPlan (appendReplicaEvents (Server.nthEnv 9) true sentPause openPlan).2 := by
  refine ⟨by decide +kernel, (replica_guard_iff (by decide +kernel)).2 ⟨?_, fun _ => ⟨?_, fun _ => trivial⟩⟩⟩
  · rintro ⟨_, plan, hCreated, _⟩
    cases hCreated
  · rintro ⟨_, plan, hCreated, _⟩
    cases hCreated

end ReplicaEvents
end Daruma
