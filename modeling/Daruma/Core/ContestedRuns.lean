import Daruma.Core.ClosedPlans
import Daruma.Core.FinalRuns
import Daruma.Core.RunDuties

/-! Runs whose task leaves their plan. The removal closes the current step of one run;
a deletion closes none. -/
namespace Daruma

open Outcome List
open RunRepo (listActiveForPlan currentStepTask applyEvent)
open Server (nthEnv engineConfig run)

structure WorksOn (db : Database) (planId : PlanId) (taskId : TaskId) (row : Nat) (step : RunStep) : Prop where
  stored : db.runSteps[row]? = some step
  task : step.taskId = taskId
  unfinished : step.finishedAt = none
  active : ∃ run, db.runs.find? step.runId = some run ∧ run.planId = planId ∧ run.status = .active

def NoneWorks (db : Database) (planId : PlanId) (taskId : TaskId) : Prop := ∀ row step, ¬WorksOn db planId taskId row step

def StartedLast (db : Database) (row : Nat) (step : RunStep) : Prop :=
  ∀ otherRow other, db.runSteps[otherRow]? = some other → other.runId = step.runId → other.finishedAt = none →
    other.startedAt < step.startedAt ∨ (other.startedAt = step.startedAt ∧ otherRow ≤ row)

variable {planId : PlanId}

theorem active_iff_standing {db : Database} {id : RunId} :
    (∃ run, db.runs.find? id = some run ∧ run.planId = planId ∧ run.status = .active) ↔
      (db.runs.find? id).map Run.standing = some (planId, true) := by
  simp [Option.map_eq_some_iff, Run.standing]

def Command.removedTask : Command → Option TaskId
  | .plan (.removePlanTask _ taskId) => some taskId
  | .task (.deleteTask id) => some id
  | _ => none

/-- What makes a removal close every open step on its task: for the removal from a
plan, that there is one at most, and that one its run started last; for a deletion,
that the plans of the task have none. -/
def Command.ContestsAll (db : Database) : Command → Prop
  | .plan (.removePlanTask planId taskId) => ∀ row step, WorksOn db planId taskId row step →
      (∀ otherRow other, WorksOn db planId taskId otherRow other → otherRow = row) ∧ StartedLast db row step
  | .task (.deleteTask id) => ∀ member ∈ db.planTasks, member.taskId = id →
      (db.plans.find? member.planId).isSome = true → NoneWorks db member.planId id
  | _ => True

def Event.onSteps (steps : List RunStep) : Event → List RunStep
  | .run event => (RunRepo.applyRunEvent { Database.empty with runSteps := steps } event).runSteps
  | _ => steps

namespace RunRepo

variable {db : Database} {isOpen : RunStep → Bool} {rows : List (RunStep × Nat)} {found other : RunStep × Nat}

theorem latestOpen_none (h : latestOpen isOpen rows = none) : ∀ other ∈ rows, isOpen other.1 = false := by
  induction rows with
  | nil => exact fun other hOther => absurd hOther not_mem_nil
  | cons first rest ih =>
    obtain ⟨step, row⟩ := first
    unfold latestOpen at h
    cases hLater : latestOpen isOpen rest with
    | some later =>
      rw [hLater] at h
      dsimp only at h
      split at h
      · cases h
      · cases h
    | none =>
      rw [hLater] at h
      refine forall_mem_cons.mpr ⟨?_, ih hLater⟩
      by_contra hFirst
      rw [Bool.not_eq_false] at hFirst
      dsimp only at h
      rw [if_pos hFirst] at h
      cases h

theorem latestOpen_last (hRows : rows.Pairwise fun first later => first.2 < later.2)
    (h : latestOpen isOpen rows = some found) (hOther : other ∈ rows) (hOpen : isOpen other.1 = true) :
    other.1.startedAt < found.1.startedAt ∨ (other.1.startedAt = found.1.startedAt ∧ other.2 ≤ found.2) := by
  induction rows generalizing found with
  | nil => cases h
  | cons first rest ih =>
    obtain ⟨step, row⟩ := first
    obtain ⟨hFirst, hRest⟩ := pairwise_cons.mp hRows
    unfold latestOpen at h
    cases hLater : latestOpen isOpen rest with
    | none =>
      rw [hLater] at h
      dsimp only at h
      split at h
      · cases h
        rcases mem_cons.mp hOther with rfl | hOther
        · exact .inr ⟨rfl, Nat.le_refl _⟩
        · exact absurd ((latestOpen_none hLater other hOther).symm.trans hOpen) Bool.false_ne_true
      · cases h
    | some last =>
      rw [hLater] at h
      dsimp only at h
      split at h
      · rename_i hStarts
        obtain ⟨_, hStarts⟩ := Bool.and_eq_true_iff.mp hStarts
        cases h
        rcases mem_cons.mp hOther with rfl | hOther
        · exact .inr ⟨rfl, Nat.le_refl _⟩
        · have hBefore := ih hRest hLater hOther
          rcases hBefore with hBefore | ⟨hSame, _⟩
          · exact .inl (Int.lt_trans hBefore (of_decide_eq_true hStarts))
          · exact .inl (hSame ▸ of_decide_eq_true hStarts)
      · rename_i hStarts
        cases h
        rcases mem_cons.mp hOther with rfl | hOther
        · have hNot : ¬found.1.startedAt < step.startedAt := fun hBefore =>
            hStarts (Bool.and_eq_true_iff.mpr ⟨hOpen, decide_eq_true hBefore⟩)
          rcases Int.lt_or_eq_of_le (Int.not_lt.mp hNot) with hBefore | hSame
          · exact .inl hBefore
          · exact .inr ⟨hSame, Nat.le_of_lt (hFirst found (latestOpen_ok hLater).1)⟩
        · exact ih hRest hLater hOther

theorem zipIdx_pairwise (steps : List RunStep) : steps.zipIdx.Pairwise fun first later => first.2 < later.2 := by
  have hRows : (steps.zipIdx.map Prod.snd).Pairwise (· < ·) := by
    rw [zipIdx_map_snd]
    exact pairwise_lt_range'
  exact pairwise_map.mp hRows

theorem finishStepRow_cases (runId : RunId) (taskId : TaskId) (outcome : RunOutcome) (instant : Timestamp) :
    (∃ row step, db.runSteps[row]? = some step ∧ step.runId = runId ∧ step.taskId = taskId ∧ step.finishedAt = none ∧
        (finishStepRow db runId taskId outcome instant).runSteps =
          db.runSteps.set row { step with finishedAt := some instant, outcome := some outcome }) ∨
      ((∀ step ∈ db.runSteps, step.runId = runId → step.taskId = taskId → step.finishedAt ≠ none) ∧
        (finishStepRow db runId taskId outcome instant).runSteps =
          db.runSteps ++ [⟨runId, taskId, instant, some instant, some outcome⟩]) := by
  unfold finishStepRow
  dsimp only
  split
  · rename_i step row hOpen
    obtain ⟨hRow, hStep⟩ := latestOpen_ok hOpen
    simp only [Bool.and_eq_true, decide_eq_true_eq] at hStep
    exact .inl ⟨row, step, mk_mem_zipIdx_iff_getElem?.mp hRow, hStep.1.1, hStep.1.2, hStep.2, rfl⟩
  · rename_i hNone
    refine .inr ⟨fun step hStep hRun hTask hOpen => ?_, rfl⟩
    obtain ⟨row, hRow⟩ := mem_iff_getElem?.mp hStep
    have hClosed := latestOpen_none hNone (step, row) (mk_mem_zipIdx_iff_getElem?.mpr hRow)
    simp [hRun, hTask, hOpen] at hClosed

theorem currentStepTask_cases {runId : RunId} {taskId : TaskId} (h : currentStepTask db runId = some taskId) :
    ∃ row step, db.runSteps[row]? = some step ∧ step.runId = runId ∧ step.taskId = taskId ∧ step.finishedAt = none ∧
      StartedLast db row step := by
  obtain ⟨⟨step, row⟩, hFound, hTask⟩ := Option.map_eq_some_iff.mp h
  obtain ⟨hRow, hStep⟩ := latestOpen_ok hFound
  simp only [Bool.and_eq_true, decide_eq_true_eq] at hStep
  refine ⟨row, step, mk_mem_zipIdx_iff_getElem?.mp hRow, hStep.1, hTask, hStep.2, ?_⟩
  intro otherRow other hOther hRun hOpen
  refine latestOpen_last (zipIdx_pairwise db.runSteps) hFound (mk_mem_zipIdx_iff_getElem?.mpr hOther) ?_
  simp [hRun, hStep.1, hOpen]

variable {steps : List RunStep} {event : RunEvent} {step : RunStep} {row : Nat}

theorem currentStepTask_of_last (hStored : db.runSteps[row]? = some step)
    (hOpen : step.finishedAt = none) (hLast : StartedLast db row step) :
    currentStepTask db step.runId = some step.taskId := by
  unfold currentStepTask
  have hIn := mk_mem_zipIdx_iff_getElem?.mpr hStored
  cases hFound : latestOpen (fun other => other.runId = step.runId && other.finishedAt = none) db.runSteps.zipIdx with
  | none =>
    have hClosed := latestOpen_none hFound _ hIn
    simp [hOpen] at hClosed
  | some found =>
    obtain ⟨hRow, hStep⟩ := latestOpen_ok hFound
    simp only [Bool.and_eq_true, decide_eq_true_eq] at hStep
    have hStoredOther := mk_mem_zipIdx_iff_getElem?.mp hRow
    have hBefore := hLast found.2 found.1 hStoredOther hStep.1 hStep.2
    have hAfter := latestOpen_last (zipIdx_pairwise db.runSteps) hFound hIn (by simp [hOpen])
    have hSame : found.2 = row := by
      rcases hAfter with hAfter | ⟨hAfter, hRowAfter⟩
      · exact absurd (hBefore.elim id fun hSame => hSame.1 ▸ hAfter) (Int.lt_asymm hAfter)
      · rcases hBefore with hBefore | ⟨_, hRowBefore⟩
        · exact absurd (hAfter ▸ hBefore) (Int.lt_irrefl _)
        · exact Nat.le_antisymm hRowBefore hRowAfter
    rw [hSame, hStored] at hStoredOther
    exact congrArg (fun step => some (RunStep.taskId step)) (Option.some.inj hStoredOther).symm

theorem runSteps_applyRunEvent :
    (applyRunEvent db event).runSteps = Event.onSteps db.runSteps (.run event) := by
  cases event with
  | runStepFinished runId taskId outcome instant =>
    show (finishStepRow (touchActivity db runId instant) runId taskId outcome instant).runSteps =
      (finishStepRow (touchActivity { Database.empty with runSteps := db.runSteps } runId instant) runId taskId
        outcome instant).runSteps
    unfold finishStepRow
    dsimp only [touchActivity, updateRun]
    split
    · rfl
    · rfl
  | _ => rfl

end RunRepo

def Event.stepsNothing : Event → Bool
  | .run (.runStepStarted ..) | .run (.runStepFinished ..) => false
  | _ => true

theorem Event.onSteps_of_nothing {event : Event} (h : event.stepsNothing = true) :
    event.onSteps steps = steps := by
  cases event with
  | run event =>
    cases event with
    | runStepStarted | runStepFinished => cases h
    | _ => rfl
  | _ => rfl

theorem Event.foldl_onSteps_of_nothing {events : List Event}
    (h : ∀ event ∈ events, event.stepsNothing = true) : events.foldl Event.onSteps steps = steps := by
  induction events with
  | nil => rfl
  | cons event rest ih =>
    obtain ⟨hEvent, hRest⟩ := forall_mem_cons.mp h
    rw [foldl_cons, Event.onSteps_of_nothing hEvent]
    exact ih hRest

namespace Projections

variable {env : Env} {envelope : EventEnvelope} {envelopes : List EventEnvelope} {db db' : Database}
  {outcome : Except CoreError Unit}

theorem projectors_keepSteps {step : Database → Result Database}
    (hStep : step ∈ (projectors env envelope).take 3 ++ (projectors env envelope).drop 4) (h : step db = .ok db') :
    db'.runSteps = db.runSteps := by
  obtain ⟨_, hOther, hWrote⟩ : ∃ n, n ≠ 3 ∧ Wrote env envelope db n db' := by
    rcases mem_append.mp hStep with hFirst | hLast
    · obtain ⟨n, hLess, hWrote⟩ := exists_wrote_take hFirst h
      exact ⟨n, hLess.ne, hWrote⟩
    · obtain ⟨n, hMore, hWrote⟩ := exists_wrote_drop hLast h
      exact ⟨n, (Nat.lt_of_succ_le hMore).ne', hWrote⟩
  cases hWrote with
  | runs => exact absurd rfl hOther
  | _ => rfl

theorem projectors_runSteps (h : Stateful.inTurn (projectors env envelope) db = (outcome, db')) :
    (outcome ≠ .ok () ∧ db'.runSteps = db.runSteps) ∨ db'.runSteps = envelope.payload.onSteps db.runSteps := by
  have hSplit : projectors env envelope = (projectors env envelope).take 3 ++
      (fun db => .ok (applyEvent db envelope)) :: (projectors env envelope).drop 4 := rfl
  rw [hSplit] at h
  refine Stateful.inTurn_field Database.runSteps envelope.payload.onSteps ?_ ?_ ?_ h
  · intro step hStep before after hTaken
    exact projectors_keepSteps (mem_append_left _ hStep) hTaken
  · intro before after hTaken
    cases hTaken
    unfold applyEvent
    cases hPayload : envelope.payload with
    | run event => exact RunRepo.runSteps_applyRunEvent
    | _ => rfl
  · intro step hStep before after hTaken
    exact projectors_keepSteps (mem_append_right _ hStep) hTaken

theorem applyEvents_runSteps (h : applyEvents env envelopes db = (.ok (), db')) :
    db'.runSteps = (envelopes.map EventEnvelope.payload).foldl Event.onSteps db.runSteps := by
  obtain ⟨taken, left, hSplit, hLeft, hFold⟩ := Stateful.inTurn_fold Database.runSteps
    (fun steps envelope => envelope.payload.onSteps steps)
    (fun envelope _ _ _ _ hRun => projectors_runSteps hRun) h
  rw [hLeft rfl, append_nil] at hSplit
  rw [hFold, hSplit, foldl_map]

end Projections

def Event.movesRun : Event → Bool
  | .run (.runStarted _) | .run (.runCompleted ..) | .run (.runFailed ..) | .run (.runAborted ..) => true
  | _ => false

/-- The runs stay active, or not, on their plans. -/
def SameStanding (before after : Database) : Prop :=
  ∀ id, (after.runs.find? id).map Run.standing = (before.runs.find? id).map Run.standing

theorem SameStanding.work : WorkRelation SameStanding where
  trans _ _ _ hFirst hSecond id := (hSecond id).trans (hFirst id)
  same before after h id := by rw [h.runs]

theorem RunRepo.applyRunEvent_sameStanding (h : Event.movesRun (.run event) = false) (db : Database) :
    SameStanding db (applyRunEvent db event) := by
  have hDuty : (applyRunEvent db event).duty.run = (Event.onDuty db.duty (.run event)).run := by
    rw [duty_applyRunEvent]
  intro id
  refine (congrFun hDuty id).trans ?_
  cases event with
  | runStarted | runCompleted | runFailed | runAborted => cases h
  | _ => rfl

namespace Handler

variable {config : Config} {db : Database} {env : Env} {caller : Caller} {command : Command} {claimed : Actor}
  {batch : List Event} {relations : Relations} {trail : GateStage.Trail} {persisted : List EventEnvelope}
  {appended applied : Database}

variable (h : Accepted config env caller command claimed db batch relations trail persisted appended)

include h in
theorem Accepted.steps (hApplied : Projections.applyEvents (env.part 4) persisted appended = (.ok (), applied)) :
    (AutoAppend.autoAppendLogs config (env.part 5) applied persisted).runSteps = batch.foldl Event.onSteps db.runSteps := by
  obtain ⟨f, audit, metrics, releases, hRelinking, hAudit, hMetrics, hReleases, hPayloads⟩ := h.payloads
  have hRelinked : ∀ steps event, Event.onSteps steps (f event) = event.onSteps steps := by
    intro steps event
    rcases hRelinking with rfl | ⟨origin, rfl⟩
    · rfl
    · cases event with
      | task event => cases event <;> rfl
      | _ => rfl
  have hStill : ∀ {event : Event}, event.isAudit = true → event.stepsNothing = true := by
    intro event hIs
    cases event with
    | run => cases hIs
    | _ => rfl
  have hReleased : ∀ event ∈ releases, event.stepsNothing = true := by
    intro event hMem
    obtain ⟨_, _, _, rfl⟩ := hReleases event hMem
    rfl
  have hLogged : SameSteps applied (AutoAppend.autoAppendLogs config (env.part 5) applied persisted) :=
    AutoAppend.autoAppendLogs_work SameSteps.work
  have hAll : applied.runSteps = _ := Projections.applyEvents_runSteps hApplied
  rw [show (AutoAppend.autoAppendLogs config (env.part 5) applied persisted).runSteps = applied.runSteps from hLogged, hAll,
    hPayloads, foldl_append, foldl_append, foldl_append, h.stored_runSteps,
    Event.foldl_onSteps_of_nothing fun event hMem => hStill (hAudit event hMem), foldl_map,
    Event.foldl_onSteps_of_nothing hReleased, Event.foldl_onSteps_of_nothing fun event hMem => hStill (hMetrics event hMem)]
  simp only [hRelinked]

variable {taskId : TaskId} {closes : List RunStep → List RunStep} {planId : PlanId} {actor : Actor}
  {warnings : List MutationWarning}

include h in
theorem Accepted.removal_runs (hRemoves : command.removedTask = some taskId) : appended.runs = db.runs := by
  have hSame : ∀ {before : Database} {envelopes : List EventEnvelope},
      appendBatch before envelopes = .ok (persisted, appended) → appended.runs = before.runs := by
    intro before envelopes hAppend
    obtain ⟨_, _, rfl⟩ := (appendBatch_ok hAppend).2.2
    rfl
  have hEnds : endsPlan command = false := by
    unfold Command.removedTask at hRemoves
    split at hRemoves
    · rfl
    · rfl
    · cases hRemoves
  have hStored := h.stored
  unfold persist at hStored
  split at hStored
  · cases hRemoves
  · cases hRemoves
  · cases hRemoves
  · split at hStored
    · unfold AgentClaimRepo.recordTaskLifecycle at hStored
      have hRuns := hSame hStored
      exact hRuns
    · rw [hEnds, if_neg Bool.false_ne_true] at hStored
      have hRuns := hSame hStored
      exact hRuns

structure Removal (taskId : TaskId) (batch : List Event) (leaves : PlanId → Prop)
    (closes : List RunStep → List RunStep) : Prop where
  nonempty : batch ≠ []
  plans : ∀ planId, .plan (.planTaskRemoved planId taskId) ∈ batch ↔ leaves planId
  stands : ∀ event ∈ batch, event.movesRun = false
  steps : ∀ steps, batch.foldl Event.onSteps steps = closes steps

variable {leaves : PlanId → Prop}

theorem Removal.reconciled {built : List Event} (h : Removal taskId built leaves closes) :
    Removal taskId (built ++ (Reconciliation.planReconciliations db built).map .plan) leaves closes := by
  have hCloses : ∀ event ∈ (Reconciliation.planReconciliations db built).map Event.plan,
      ∃ planId fromStatus, event = .plan (.planStatusChanged planId fromStatus .completed) := by
    refine forall_mem_map.mpr fun event hMem => ?_
    obtain ⟨planId, fromStatus, rfl⟩ := Reconciliation.drain_closes hMem
    exact ⟨planId, fromStatus, rfl⟩
  refine ⟨fun hNone => h.nonempty (append_eq_nil_iff.mp hNone).1, fun planId => ?_, fun event hMem => ?_,
    fun steps => ?_⟩
  · rw [mem_append, ← h.plans]
    refine or_iff_left fun hMem => ?_
    obtain ⟨_, _, hIs⟩ := hCloses _ hMem
    cases hIs
  · rcases mem_append.mp hMem with hMem | hMem
    · exact h.stands event hMem
    · obtain ⟨_, _, rfl⟩ := hCloses event hMem
      rfl
  · rw [foldl_append, h.steps]
    refine Event.foldl_onSteps_of_nothing fun event hMem => ?_
    obtain ⟨_, _, rfl⟩ := hCloses event hMem
    rfl

def contestedRun (db : Database) (planId : PlanId) (taskId : TaskId) : Option Run :=
  (listActiveForPlan db planId).find? fun run => currentStepTask db run.id = some taskId

def contest (db : Database) (now : Timestamp) (planId : PlanId) (taskId : TaskId) (steps : List RunStep) : List RunStep :=
  match contestedRun db planId taskId with
  | some run => Event.onSteps steps (.run (.runStepFinished run.id taskId .superseded now))
  | none => steps

theorem removal_from_plan
    (h : draft config db (env.part 0) caller actor (.plan (.removePlanTask planId taskId)) db.relations =
      (.ok (batch, warnings), relations)) :
    Removal taskId batch (· = planId) (contest db (builderEnv env).now planId taskId) := by
  obtain ⟨built, hBuilt, rfl⟩ := draft_of_unsourced rfl h
  refine Removal.reconciled ?_
  obtain ⟨hRemoved, _⟩ := Stateful.lift_eq.mp hBuilt
  obtain ⟨plan, _, hRemoved⟩ := bind_eq_ok.mp hRemoved
  cases pure_eq_ok.mp hRemoved
  unfold contest contestedRun
  cases (listActiveForPlan db planId).find? fun run => currentStepTask db run.id = some taskId with
  | none =>
    refine ⟨cons_ne_nil _ _, fun other => ?_, forall_mem_singleton.mpr rfl, fun steps => rfl⟩
    simp [authenticated]
  | some run =>
    refine ⟨cons_ne_nil _ _, fun other => ?_, ?_, fun steps => rfl⟩
    · simp [authenticated]
    · simp [authenticated, Event.movesRun]

theorem removal_of_task {id : TaskId}
    (h : draft config db (env.part 0) caller actor (.task (.deleteTask id)) db.relations =
      (.ok (batch, warnings), relations)) :
    Removal id batch (fun planId => ∃ member ∈ db.planTasks, member.taskId = id ∧ member.planId = planId ∧
      (db.plans.find? planId).isSome = true) (fun steps => steps) := by
  obtain ⟨built, hBuilt, rfl⟩ := draft_ok (fun plan hIs => by cases hIs) h
  refine Removal.reconciled ?_
  obtain ⟨_, _, _, hBuilt⟩ := Stateful.bind_eq_ok.mp hBuilt
  obtain ⟨_, _, _, hBuilt⟩ := Stateful.bind_eq_ok.mp hBuilt
  obtain ⟨linked, _, _, hBuilt⟩ := Stateful.bind_eq_ok.mp hBuilt
  obtain ⟨unlinked, _, hUnlinked, hBuilt⟩ := Stateful.bind_eq_ok.mp hBuilt
  cases (Stateful.pure_eq.mp hBuilt).1
  have hRelations : ∀ event ∈ unlinked, ∃ recorded, event = .relation recorded := by
    have hUnlink : ∀ relation, Stateful.Yields (TaskCommands.unlink (builderEnv env).now relation)
        fun events => ∀ event ∈ events, ∃ recorded, event = .relation recorded := by
      intro relation
      refine .andThen fun _ => .andThen fun _ => .pure ?_
      exact forall_mem_singleton.mpr ⟨_, rfl⟩
    exact Stateful.Yields.collect (fun relation _ => hUnlink relation) _ _ _ hUnlinked
  have hEach : ∀ event ∈ (unlinked ++ (RelationEnforcement.listDownstreamToUnblock linked db.tasks id).map
      (fun taskId => Event.task (.taskUnblocked taskId id (builderEnv env).now)) ++
      (PlanRepo.listPlansForTask db id).map (fun plan => Event.plan (.planTaskRemoved plan.id id)) ++
      [Event.task (.taskDeleted id)]).map (authenticated caller), (∃ recorded, event = .relation recorded) ∨
        (∃ recorded, event = .task recorded) ∨
        ∃ plan ∈ PlanRepo.listPlansForTask db id, event = .plan (.planTaskRemoved plan.id id) := by
    refine forall_mem_map.mpr fun event hMem => ?_
    rcases mem_append.mp hMem with hMem | hMem
    · rcases mem_append.mp hMem with hMem | hMem
      · rcases mem_append.mp hMem with hMem | hMem
        · obtain ⟨recorded, rfl⟩ := hRelations event hMem
          exact .inl ⟨recorded, rfl⟩
        · obtain ⟨taskId, _, rfl⟩ := mem_map.mp hMem
          exact .inr (.inl ⟨_, rfl⟩)
      · obtain ⟨plan, hPlan, rfl⟩ := mem_map.mp hMem
        exact .inr (.inr ⟨plan, hPlan, rfl⟩)
    · rw [mem_singleton.mp hMem]
      exact .inr (.inl ⟨_, rfl⟩)
  refine ⟨?_, fun planId => ⟨fun hMem => ?_, ?_⟩, fun event hMem => ?_, fun steps => ?_⟩
  · simp
  · rcases hEach _ hMem with ⟨_, hIs⟩ | ⟨_, hIs⟩ | ⟨plan, hPlan, hIs⟩
    · cases hIs
    · cases hIs
    · cases hIs
      obtain ⟨member, hMember, hTask, hStored⟩ := Reconciliation.mem_listPlansForTask.mp hPlan
      have hId := KeyedTable.key_of_find? hStored
      refine ⟨member, hMember, hTask, hId.symm, ?_⟩
      rw [hId, hStored]
      rfl
  · rintro ⟨member, hMember, hTask, rfl, hStored⟩
    obtain ⟨plan, hPlan⟩ := Option.isSome_iff_exists.mp hStored
    have hListed := Reconciliation.mem_listPlansForTask.mpr ⟨member, hMember, hTask, hPlan⟩
    refine mem_map.mpr ⟨_, mem_append_left _ (mem_append_right _ (mem_map_of_mem hListed)), ?_⟩
    rw [← KeyedTable.key_of_find? hPlan]
    rfl
  · rcases hEach event hMem with ⟨_, rfl⟩ | ⟨_, rfl⟩ | ⟨_, _, rfl⟩ <;> rfl
  · refine Event.foldl_onSteps_of_nothing fun event hMem => ?_
    rcases hEach event hMem with ⟨_, rfl⟩ | ⟨_, rfl⟩ | ⟨_, _, rfl⟩ <;> rfl

include h in
theorem Accepted.planTaskRemoved_iff : .plan (.planTaskRemoved planId taskId) ∈ persisted.map EventEnvelope.payload ↔
      .plan (.planTaskRemoved planId taskId) ∈ batch := by
  refine ⟨fun hMem => h.mem_of_work hMem (.inl ⟨_, rfl⟩), fun hMem => ?_⟩
  obtain ⟨f, audit, metrics, releases, hRelinking, _, _, _, hPayloads⟩ := h.payloads
  rw [hPayloads]
  have hSame : f (.plan (.planTaskRemoved planId taskId)) = .plan (.planTaskRemoved planId taskId) := by
    rcases hRelinking with rfl | ⟨origin, rfl⟩
    · rfl
    · rfl
  have hIn := mem_map_of_mem (f := f) hMem
  rw [hSame] at hIn
  exact mem_append_left _ (mem_append_left _ (mem_append_right _ hIn))

theorem Removal.worksOn (hRemoval : Removal taskId batch leaves closes)
    (h : Accepted config env caller command claimed db batch relations trail persisted appended)
    (hRemoves : command.removedTask = some taskId)
    (hApplied : Projections.applyEvents (env.part 4) persisted appended = (.ok (), applied)) :
    WorksOn (AutoAppend.autoAppendLogs config (env.part 5) applied persisted) planId taskId row step ↔
      WorksOn { db with runSteps := closes db.runSteps } planId taskId row step := by
  have hSteps := h.steps hApplied
  rw [hRemoval.steps] at hSteps
  have hStands : SameStanding db (AutoAppend.autoAppendLogs config (env.part 5) applied persisted) := by
    refine SameStanding.work.trans _ _ _ (h.applied_work SameStanding.work ⟨?_, ?_, ?_⟩ hApplied)
      (AutoAppend.autoAppendLogs_work SameStanding.work)
    · intro id
      rw [h.removal_runs hRemoves]
    · intro event _ before env envelope id
      obtain ⟨_, _, _, _, hFrame⟩ := PlanRepo.applyPlanEvent_frame before env envelope event
      rw [hFrame]
    · exact fun event hMem before => RunRepo.applyRunEvent_sameStanding (hRemoval.stands _ hMem) before
  constructor
  · rintro ⟨hStored, hTask, hOpen, hRun⟩
    exact ⟨hSteps ▸ hStored, hTask, hOpen, active_iff_standing.mpr ((hStands _).symm.trans (active_iff_standing.mp hRun))⟩
  · rintro ⟨hStored, hTask, hOpen, hRun⟩
    exact ⟨hSteps.symm ▸ hStored, hTask, hOpen, active_iff_standing.mpr ((hStands _).trans (active_iff_standing.mp hRun))⟩

end Handler

theorem mem_listActiveForPlan {db : Database} {run : Run} : run ∈ listActiveForPlan db planId ↔
      db.runs.find? run.id = some run ∧ run.planId = planId ∧ run.status = .active := by
  unfold listActiveForPlan
  rw [mem_orderBy, mem_filter, Bool.and_eq_true, decide_eq_true_eq, decide_eq_true_eq]
  exact and_congr_left fun _ => ⟨KeyedTable.find?_of_mem, KeyedTable.mem_of_find?⟩

/-- A removal from a plan closes every open step on its task exactly when there is one
at most, which its run started last. -/
theorem noneWorks_contest_iff {db : Database} {now : Timestamp} {taskId : TaskId} :
    NoneWorks { db with runSteps := Handler.contest db now planId taskId db.runSteps } planId taskId ↔
      Command.ContestsAll db (.plan (.removePlanTask planId taskId)) := by
  unfold Handler.contest Handler.contestedRun
  cases hFound : (listActiveForPlan db planId).find? fun run =>
      currentStepTask db run.id = some taskId with
  | none =>
    constructor
    · exact fun hNone row step hWorks => absurd hWorks (hNone row step)
    · intro hAll row step hWorks
      have hWorks : WorksOn db planId taskId row step := hWorks
      obtain ⟨run, hRun, hActive⟩ := hWorks.active
      have hId : run.id = step.runId := KeyedTable.key_of_find? hRun
      have hCurrent : currentStepTask db run.id = some taskId := by
        rw [hId, RunRepo.currentStepTask_of_last hWorks.stored hWorks.unfinished (hAll row step hWorks).2, hWorks.task]
      have hNot := find?_eq_none.mp hFound run (mem_listActiveForPlan.mpr ⟨hId ▸ hRun, hActive⟩)
      exact hNot (decide_eq_true hCurrent)
  | some run =>
    obtain ⟨hRun, hActive⟩ := mem_listActiveForPlan.mp (mem_of_find?_eq_some hFound)
    have hCurrent : currentStepTask db run.id = some taskId := by
      have hTest := find?_some hFound
      exact of_decide_eq_true hTest
    obtain ⟨row, step, hStored, hOf, hTask, hOpen, hLast⟩ := RunRepo.currentStepTask_cases hCurrent
    have hWorks : WorksOn db planId taskId row step := ⟨hStored, hTask, hOpen, run, hOf ▸ hRun, hActive⟩
    have hCases := @RunRepo.finishStepRow_cases
      (RunRepo.touchActivity { Database.empty with runSteps := db.runSteps } run.id now) run.id taskId .superseded now
    rcases hCases with ⟨closed, done, hClosed, hOfDone, hTaskDone, hOpenDone, hSteps⟩ | ⟨hNone, _⟩
    swap
    · exact absurd hOpen (hNone step (mem_of_getElem? hStored) hOf hTask)
    have hClosedWorks : WorksOn db planId taskId closed done := ⟨hClosed, hTaskDone, hOpenDone, run, hOfDone ▸ hRun, hActive⟩
    have hAfter : ∀ {otherRow other}, WorksOn { db with
        runSteps := Event.onSteps db.runSteps (.run (.runStepFinished run.id taskId .superseded now)) } planId taskId otherRow other ↔
        otherRow ≠ closed ∧ WorksOn db planId taskId otherRow other := by
      intro otherRow other
      have hClosed : db.runSteps[closed]? = some done := hClosed
      have hSet : Event.onSteps db.runSteps (.run (.runStepFinished run.id taskId .superseded now)) =
          db.runSteps.set closed { done with finishedAt := some now, outcome := some .superseded } := hSteps
      rw [hSet]
      constructor
      · intro hOther
        have hStored : (db.runSteps.set closed _)[otherRow]? = some other := hOther.stored
        have hApart : otherRow ≠ closed := by
          rintro rfl
          rw [List.getElem?_set_self (List.getElem?_eq_some_iff.mp hClosed).1] at hStored
          have hOpen := hOther.unfinished
          rw [← Option.some.inj hStored] at hOpen
          cases hOpen
        rw [getElem?_set_ne (Ne.symm hApart)] at hStored
        exact ⟨hApart, hStored, hOther.task, hOther.unfinished, hOther.active⟩
      · rintro ⟨hApart, hOther⟩
        exact ⟨(getElem?_set_ne (Ne.symm hApart)).trans hOther.stored, hOther.task, hOther.unfinished, hOther.active⟩
    constructor
    · intro hNone
      have hOnly : ∀ otherRow other, WorksOn db planId taskId otherRow other → otherRow = closed := by
        intro otherRow other hOther
        by_contra hApart
        exact hNone otherRow other (hAfter.mpr ⟨hApart, hOther⟩)
      intro otherRow other hOther
      have hSame : otherRow = row := (hOnly otherRow other hOther).trans (hOnly row step hWorks).symm
      refine ⟨fun thirdRow third hThird => (hOnly thirdRow third hThird).trans (hOnly otherRow other hOther).symm, ?_⟩
      have hStep : other = step := Option.some.inj (hOther.stored.symm.trans (hSame ▸ hStored))
      rw [hSame, hStep]
      exact hLast
    · intro hAll otherRow other hOther
      obtain ⟨hApart, hOther⟩ := hAfter.mp hOther
      exact hApart ((hAll closed done hClosedWorks).1 otherRow other hOther)

namespace Handler

/-- Removing a task from a plan, or deleting it, leaves no active run of a plan that it
leaves with an open step on it, exactly when every such step is one that the removal
closes. -/
theorem removal_contests_runs_iff {config : Config} {env : Env} {caller : Caller} {command : Command} {claimed : Actor}
    {calls : List Call} {answer : DispatchOutcome} {after : Database} {taskId : TaskId}
    (hRemoves : command.removedTask = some taskId)
    (h : handleWithRunOwner config env caller command claimed (Server.run config calls) = (.ok answer, after)) :
    (∀ planId, .plan (.planTaskRemoved planId taskId) ∈ answer.events.map EventEnvelope.payload →
      NoneWorks after planId taskId) ↔ command.ContestsAll (Server.run config calls) := by
  generalize Server.run config calls = db at h ⊢
  rcases answered h with hRetry | ⟨batch, relations, hDraft, hEnd⟩
  · unfold Command.removedTask at hRemoves
    split at hRemoves
    · cases hRetry
    · cases hRetry
    · cases hRemoves
  obtain ⟨warnings, hDraft⟩ := hDraft
  have hMeets : ∀ {leaves : PlanId → Prop} {closes : List RunStep → List RunStep},
      Removal taskId batch leaves closes → ((∀ planId, .plan (.planTaskRemoved planId taskId) ∈
        answer.events.map EventEnvelope.payload → NoneWorks after planId taskId) ↔
          ∀ planId, leaves planId → NoneWorks { db with runSteps := closes db.runSteps } planId taskId) := by
    intro leaves closes hRemoval
    rcases hEnd with ⟨hEmpty, _⟩ | ⟨trail, persisted, appended, applied, hAccepted, hApplied, hAnswer, rfl⟩
    · exact absurd hEmpty hRemoval.nonempty
    · refine forall_congr' fun planId => imp_congr ?_ ?_
      · rw [hAnswer, hAccepted.planTaskRemoved_iff, hRemoval.plans]
      · exact forall_congr' fun row => forall_congr' fun step => not_congr (hRemoval.worksOn hAccepted hRemoves hApplied)
  unfold Command.removedTask at hRemoves
  split at hRemoves
  · rename_i planId removed
    cases hRemoves
    rw [hMeets (removal_from_plan hDraft), forall_eq]
    exact noneWorks_contest_iff
  · cases hRemoves
    rw [hMeets (removal_of_task hDraft)]
    constructor
    · exact fun hNone member hMember hTask hStored => hNone member.planId ⟨member, hMember, hTask, rfl, hStored⟩
    · rintro hNone planId ⟨member, hMember, hTask, rfl, hStored⟩
      exact hNone member hMember hTask hStored
  · cases hRemoves

private def workedPlan : PlanId := (builderEnv (nthEnv 1)).fresh 0

private def worked : List Command := [
  .task (.createTask { NewTask.new "task" with id := some ⟨7⟩ }),
  .plan (.createPlan (NewPlan.new "plan" ⟨0⟩ .anyUser) none),
  .plan (.addPlanTask workedPlan ⟨7⟩ none none),
  .plan (.setPlanStatus workedPlan .active false none),
  .run (.startRun workedPlan ⟨5⟩ none),
  .run (.runStartStep ((builderEnv (nthEnv 4)).fresh 0) ⟨7⟩)]

/-- A second run is at the task. -/
private def workedTwice : List Command := worked ++ [
  .run (.startRun workedPlan ⟨6⟩ none),
  .run (.runStartStep ((builderEnv (nthEnv 6)).fresh 0) ⟨7⟩)]

private def removal (list : List Command) (command : Command) : Except CoreError DispatchOutcome × Database :=
  handleWithRunOwner engineConfig (nthEnv 8) .internal command .anyUser
    (run engineConfig (Server.commands list))

private def answerOf (call : Except CoreError DispatchOutcome × Database) : DispatchOutcome :=
  call.1.toOption.getD ⟨[], []⟩

private theorem eq_answerOf {call : Except CoreError DispatchOutcome × Database} (h : call.1.isOk = true) :
    call = (.ok (answerOf call), call.2) := by
  obtain ⟨outcome, db⟩ := call
  cases outcome with
  | error e => cases h
  | ok answer => rfl

theorem removal_contests_runs_iff_worked : (∀ planId, .plan (.planTaskRemoved planId ⟨7⟩) ∈
        (answerOf (removal worked (.plan (.removePlanTask workedPlan ⟨7⟩)))).events.map EventEnvelope.payload →
      NoneWorks (removal worked (.plan (.removePlanTask workedPlan ⟨7⟩))).2 planId ⟨7⟩) ↔
      Command.ContestsAll (Server.run Server.engineConfig (Server.commands worked))
        (.plan (.removePlanTask workedPlan ⟨7⟩)) :=
  @removal_contests_runs_iff Server.engineConfig (Server.nthEnv 8) .internal (.plan (.removePlanTask workedPlan ⟨7⟩))
    .anyUser (Server.commands worked) _ _ ⟨7⟩ rfl (eq_answerOf (by decide +kernel))

private def laterStep : RunStep :=
  ⟨(builderEnv (nthEnv 6)).fresh 0, ⟨7⟩, (builderEnv (nthEnv 7)).now, none, none⟩

private def onlyStep : RunStep :=
  ⟨(builderEnv (nthEnv 4)).fresh 0, ⟨7⟩, (builderEnv (nthEnv 5)).now, none, none⟩

private def leaves (planId : PlanId) (taskId : TaskId) (envelope : EventEnvelope) : Bool :=
  match envelope.payload with
  | .plan (.planTaskRemoved removedFrom removed) => removedFrom = planId && removed = taskId
  | _ => false

private theorem mem_of_leaves {envelopes : List EventEnvelope} {planId : PlanId} {taskId : TaskId}
    (h : envelopes.any (leaves planId taskId) = true) :
    .plan (.planTaskRemoved planId taskId) ∈ envelopes.map EventEnvelope.payload := by
  obtain ⟨envelope, hMem, hLeaves⟩ := any_eq_true.mp h
  refine mem_map.mpr ⟨envelope, hMem, ?_⟩
  unfold leaves at hLeaves
  split at hLeaves
  · rename_i hPayload
    rw [Bool.and_eq_true, decide_eq_true_eq, decide_eq_true_eq] at hLeaves
    rw [hPayload, hLeaves.1, hLeaves.2]
  · cases hLeaves

/-- A removal closes the step of one run, and a deletion the step of none. -/
theorem removal_leaves_step : (.plan (.planTaskRemoved workedPlan ⟨7⟩) ∈
        (answerOf (removal workedTwice (.plan (.removePlanTask workedPlan ⟨7⟩)))).events.map EventEnvelope.payload ∧
      ¬NoneWorks (removal workedTwice (.plan (.removePlanTask workedPlan ⟨7⟩))).2 workedPlan ⟨7⟩) ∧
    (.plan (.planTaskRemoved workedPlan ⟨7⟩) ∈
        (answerOf (removal worked (.task (.deleteTask ⟨7⟩)))).events.map EventEnvelope.payload ∧
      ¬NoneWorks (removal worked (.task (.deleteTask ⟨7⟩))).2 workedPlan ⟨7⟩) := by
  refine ⟨⟨mem_of_leaves (by decide +kernel), fun hNone => hNone 1 laterStep ⟨by decide +kernel, rfl, rfl, ?_⟩⟩,
    ⟨mem_of_leaves (by decide +kernel), fun hNone => hNone 0 onlyStep ⟨by decide +kernel, rfl, rfl, ?_⟩⟩⟩
  · exact active_iff_standing.mpr (by decide +kernel)
  · exact active_iff_standing.mpr (by decide +kernel)

end Handler
end Daruma
