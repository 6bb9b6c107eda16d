import Daruma.Core.ClosedPlans
import Daruma.Core.RunDuties
import Daruma.Core.TerminatedClaims

/-! Active runs are on open plans. A command shuts at most the plan that it names, and
its transaction ends the runs of that plan; the plans that are closed along the way
have no active runs. -/
namespace Daruma

open Outcome List KeyedTable Option

structure Event.Restrained (command : Command) (event : Event) : Prop where
  shuts : ∀ planId, event.shuts = some planId → Handler.endsPlan command = true ∧ command.endedPlan = some planId
  creates : ∀ plan, event = .plan (.planCreated plan) → plan.status.IsOpen ∧ plan.archivedAt = none

theorem MayRecord.restrained {db : Database} {env : Env} {links : Bool} {command : Command} {event : Event}
    (h : MayRecord db env links command event) : event.Restrained command := by
  have hShutting : (∀ plan, event ≠ .plan (.planCreated plan)) → (∀ planId, event.shuts = some planId →
      Handler.endsPlan command = true ∧ command.endedPlan = some planId) → event.Restrained command :=
    fun hOther hShuts => ⟨hShuts, fun plan hIs => absurd hIs (hOther plan)⟩
  cases h with
  | planCreated _ _ _ hStatus hArchived =>
    refine ⟨fun _ hShuts => ?_, fun created hIs => ?_⟩
    · cases hShuts
    · cases hIs
      exact ⟨by rcases hStatus with hIs | hIs <;> simp [hIs, PlanStatus.IsOpen], hArchived⟩
  | planReopened =>
    refine hShutting (fun _ hIs => by cases hIs) fun planId hShuts => ?_
    simp [Event.shuts] at hShuts
  | planMoved =>
    refine hShutting (fun _ hIs => by cases hIs) fun planId hShuts => ?_
    simp only [Event.shuts, ite_none_right_eq_some, Option.some.injEq] at hShuts
    obtain ⟨hFinal, rfl⟩ := hShuts
    exact ⟨by simpa [Handler.endsPlan] using hFinal, rfl⟩
  | planArchived | planDeleted => exact hShutting (fun _ hIs => by cases hIs) fun _ hShuts => ⟨rfl, hShuts⟩
  | @aside command event hAside =>
    cases event with
    | planGoalChanged | planTaskAmended | planReordered | planModifiedByHuman =>
      exact hShutting (fun _ hIs => by cases hIs) fun _ hShuts => by cases hShuts
    | _ => cases hAside
  | _ => exact hShutting (fun _ hIs => by cases hIs) fun _ hShuts => by cases hShuts

variable {planId : PlanId}

theorem Database.duty_active {db : Database} {id : RunId} : db.duty.run id = some (planId, true) ↔
      ∃ run, db.runs.find? id = some run ∧ run.planId = planId ∧ run.status = .active := by
  show (db.runs.find? id).map Run.standing = _ ↔ _
  rw [map_eq_some_iff]
  simp only [Run.standing, Prod.mk.injEq, decide_eq_true_eq]

namespace AgentClaimRepo

variable {db : Database} {status : RunStatus} {reason : String} {endedAt : Timestamp}

theorem ended_ne_active {run : Option (PlanId × Bool)} {planId : PlanId} :
    (run.map fun run => (run.1, false)) ≠ some (planId, true) := by
  intro hIs
  obtain ⟨before, _, hAfter⟩ := map_eq_some_iff.mp hIs
  cases hAfter

theorem endRuns_ends {ended : List Run} (hEnded : status ≠ .active) {run : Run} (hMem : run ∈ ended)
    (planId : PlanId) : (endRuns db status reason endedAt ended).1.standing.run run.id ≠ some (planId, true) := by
  induction ended generalizing db with
  | nil => exact absurd hMem not_mem_nil
  | cons first rest ih =>
    obtain ⟨middle, hLater, hFirst⟩ := endRuns_cons hEnded
    rw [hLater]
    rcases mem_cons.mp hMem with rfl | hMem
    · rcases endRuns_standing hEnded run.id with hKept | ⟨_, hAfter⟩
      · rw [hKept, hFirst, if_pos rfl]
        exact ended_ne_active
      · rw [hAfter]
        exact ended_ne_active
    · exact ih hMem

theorem endRuns_active (hEnded : status ≠ .active) {planId : PlanId} {id : RunId} :
    (endRuns db status reason endedAt (activeRuns db planId)).1.standing.run id ≠ some (planId, true) := by
  intro hActive
  rcases endRuns_standing hEnded id with hKept | ⟨_, hAfter⟩
  · obtain ⟨run, hRun, hIn, hStatus⟩ := Database.duty_active.mp (hKept.symm.trans hActive)
    obtain rfl : run.id = id := key_of_find? hRun
    exact endRuns_ends hEnded (mem_activeRuns.mpr ⟨hRun, hIn, hStatus⟩) planId hActive
  · exact ended_ne_active (hAfter.symm.trans hActive)

end AgentClaimRepo

namespace Reconciliation

variable {db : Database} {events : List Event}

theorem closures_end_runs {event : Event} (hMem : event ∈ (planReconciliations db events).map .plan) {planId : PlanId}
    (hShuts : event.shuts = some planId) {id : RunId} (hActive : db.duty.run id = some (planId, true)) :
    ∃ ending ∈ events, ending.endedRun = some id := by
  obtain ⟨closed, final, hClosures, hDrains⟩ := planReconciliations_drains db events
  rw [hClosures, List.map_map] at hMem
  obtain ⟨closedId, hClosed, rfl⟩ := mem_map.mp hMem
  obtain rfl : closedId = planId := Option.some.inj hShuts
  obtain ⟨plan, hPlan, _, _, hClear⟩ := drains_clear hDrains hClosed
  obtain ⟨run, hRun, hIn, hStatus⟩ := Database.duty_active.mp hActive
  have hListed : run ∈ RunRepo.listActiveForPlan db plan.id := by
    apply mem_orderBy.mpr
    apply List.mem_filter.mpr
    rw [KeyedTable.key_of_find? hPlan]
    exact ⟨mem_of_find? hRun, by simp [hIn, hStatus]⟩
  have hEnded := hClear.runs run hListed
  rw [(drains_overlay hDrains).2.1] at hEnded
  rcases ((noted_reads db events).runs run.id).mp hEnded with hNone | ⟨ending, hEnding, hEnds⟩
  · exact absurd hNone not_mem_nil
  · exact ⟨ending, hEnding, hEnds.trans (congrArg some (key_of_find? hRun))⟩

end Reconciliation

variable {parentRunId : Option RunId} {agentId : AgentId}

theorem RunCommands.startRun_open {db : Database} {env : Env} : Yields (startRun db env planId agentId parentRunId) fun events =>
      ∃ run, events = [.runStarted run] ∧ db.duty.Open run.planId := by
  refine .bind PlanCommands.requirePlan_ok fun plan hPlan => .andThen fun _ hActive => .pure ⟨_, rfl, .active, ?_, ?_⟩
  · have hIs := ensure_eq_ok.mp hActive
    simp only [Bool.and_eq_true, decide_eq_true_eq, isNone_iff_eq_none] at hIs
    show (db.plans.find? planId).map Plan.duty = _
    rw [hPlan, map_some, Plan.duty, hIs.1, hIs.2]
    rfl
  · simp [PlanStatus.IsOpen]

namespace Handler

variable {config : Config} {env : Env} {caller : Caller} {command : Command} {claimed : Actor} {db : Database}
  {batch : List Event} {relations : Relations} {trail : GateStage.Trail} {persisted : List EventEnvelope}
  {appended : Database}

variable (h : Accepted config env caller command claimed db batch relations trail persisted appended)

include h in
theorem Accepted.none_active
    (hEnds : endsPlan command = true) {planId : PlanId} (hNamed : command.endedPlan = some planId) (id : RunId) :
    appended.duty.run id ≠ some (planId, true) := by
  have hCaller : command.endsRun = true → caller.agentId = none := by
    intro hRun
    rcases Command.endsRun_cases hRun with ⟨_, _, rfl⟩ | ⟨_, _, rfl⟩
    · cases hEnds
    · cases hEnds
  have hStored := h.stored_work (.inr hEnds) hCaller
  rw [if_pos hEnds] at hStored
  unfold AgentClaimRepo.recordPlanTerminal at hStored
  split at hStored
  · cases hStored
  rename_i endedPlan status reason endedAt hPlan
  dsimp only at hStored
  split at hStored
  · cases hStored
  obtain ⟨hOwn, hHow⟩ := h.terminalPlan_command hEnds hPlan
  obtain rfl : planId = endedPlan := Option.some.inj (hNamed.symm.trans hOwn)
  have hEnded : status ≠ .active := by
    rcases hHow with ⟨rfl, _⟩ | rfl <;> exact nofun
  obtain ⟨_, _, rfl⟩ := (appendBatch_ok hStored).2.2
  exact AgentClaimRepo.endRuns_active hEnded

include h in
theorem Accepted.duty_plan : appended.duty.plan = db.duty.plan := by
  obtain ⟨_, _, _, _, _, rfl⟩ := h.frame
  rfl

variable {id : RunId}

include h in
theorem Accepted.duty_active
    {planId : PlanId} (hActive : appended.duty.run id = some (planId, true)) : db.duty.run id = some (planId, true) := by
  rcases h.stored_run id with hSame | ⟨run, _, _, hRetired, _⟩
  · exact hSame.symm.trans hActive
  · cases hRetired.symm.trans hActive

include h in
theorem Accepted.duty_open {planId : PlanId} (hOpen : db.duty.Open planId) : appended.duty.Open planId := by
  unfold Duty.Open
  rw [h.duty_plan]
  exact hOpen

variable {planId : PlanId} {f : Event → Event}

theorem draft_startRun {actor : Actor} {warnings : List MutationWarning}
    (h : draft config db (env.part 0) caller actor (.run (.startRun planId agentId parentRunId)) db.relations =
      (.ok (batch, warnings), relations)) :
    ∃ run, batch = [.run (.runStarted run)] ∧ db.duty.Open run.planId := by
  obtain ⟨built, hBuilt, rfl⟩ := draft_of_unsourced rfl h
  obtain ⟨events, hEvents, rfl⟩ := map_eq_ok.mp (Stateful.lift_eq.mp hBuilt).1
  obtain ⟨run, rfl, hOpen⟩ := RunCommands.startRun_open _ hEvents
  refine ⟨run, ?_, hOpen⟩
  have hNone : Reconciliation.planReconciliations db [.run (.runStarted run)] = [] :=
    (@Reconciliation.reconciled_none db db _ (.cons rfl .nil)).1
  show [Event.run (.runStarted run)] ++ (Reconciliation.planReconciliations db [.run (.runStarted run)]).map .plan = _
  rw [hNone]
  rfl

variable {event : Event}

theorem shuts_none (h : event.isAudit = true ∨ IsRelease event) : event.shuts = none := by
  rcases h with hAudit | ⟨_, _, _, rfl⟩
  · cases event with
    | audit => rfl
    | _ => cases hAudit
  · rfl

theorem Relinking.shuts (h : Relinking f) (event : Event) : (f event).shuts = event.shuts := by
  rcases h with rfl | ⟨origin, rfl⟩
  · rfl
  · cases event with
    | task event => cases event <;> rfl
    | _ => rfl

theorem Relinking.endedRun (h : Relinking f) (event : Event) : (f event).endedRun = event.endedRun := by
  rcases h with rfl | ⟨origin, rfl⟩
  · rfl
  · cases event with
    | task event => cases event <;> rfl
    | _ => rfl

theorem isWork_of_shuts (h : event.shuts = some planId) : ∃ recorded, event = .plan recorded := by
  cases event with
  | plan recorded => exact ⟨recorded, rfl⟩
  | _ => cases h

include h in
theorem Accepted.spared {planId : PlanId} (hActive : appended.duty.run id = some (planId, true)) :
    Spared (persisted.map EventEnvelope.payload) planId id := by
  obtain ⟨warnings, hDraft⟩ := h.built
  obtain ⟨events, hEvents, rfl⟩ := draft_unreconciled hDraft
  obtain ⟨f, audit, metrics, releases, hRelinking, hAudit, hMetrics, hReleases, hPayloads⟩ := h.payloads
  have hOwn : ∀ event ∈ events, event.shuts ≠ some planId := by
    intro event hMem hShuts
    obtain ⟨hEnds, hNamed⟩ := (unreconciled_records _ _ _ hEvents event hMem).restrained.shuts planId hShuts
    exact h.none_active hEnds hNamed id hActive
  refine ⟨audit ++ events.map f, (Reconciliation.planReconciliations db events).map (f ∘ Event.plan) ++ metrics ++ releases,
    ?_, ?_, ?_⟩
  · rw [hPayloads, List.map_append, List.map_map]
    simp only [append_assoc]
  · intro event hMem hShuts
    rcases mem_append.mp hMem with hMem | hMem
    · cases (shuts_none (.inl (hAudit event hMem))).symm.trans hShuts
    · obtain ⟨given, hGiven, rfl⟩ := mem_map.mp hMem
      exact hOwn given hGiven ((hRelinking.shuts given).symm.trans hShuts)
  · by_cases hCloses : ∃ event ∈ (Reconciliation.planReconciliations db events).map Event.plan, event.shuts = some planId
    · obtain ⟨event, hMem, hShuts⟩ := hCloses
      obtain ⟨ending, hEnding, hEnds⟩ := Reconciliation.closures_end_runs hMem hShuts (h.duty_active hActive)
      refine .inl ⟨f ending, mem_append_right _ (mem_map_of_mem hEnding), ?_⟩
      exact (hRelinking.endedRun ending).trans hEnds
    · refine .inr fun event hMem hShuts => ?_
      rcases mem_append.mp hMem with hMem | hMem
      · rcases mem_append.mp hMem with hMem | hMem
        · obtain ⟨given, hGiven, rfl⟩ := mem_map.mp hMem
          exact hCloses ⟨.plan given, mem_map_of_mem hGiven, (hRelinking.shuts _).symm.trans hShuts⟩
        · cases (shuts_none (.inl (hMetrics event hMem))).symm.trans hShuts
      · cases (shuts_none (.inr (hReleases event hMem))).symm.trans hShuts

include h in
theorem Accepted.safe (hKept : db.duty.Kept) : Safe appended.duty (persisted.map EventEnvelope.payload) := by
  obtain ⟨warnings, hDraft⟩ := h.built
  refine ⟨fun id planId hActive => h.duty_open (hKept id planId (h.duty_active hActive)), fun planId id => h.spared,
    fun run hMem => ?_, fun plan hMem => ?_⟩
  · have hIn := h.mem_of_work hMem (.inr ⟨_, rfl⟩)
    have hStarts : RunWarranted db (builderEnv env) command (.runStarted run) := h.warranted hIn rfl
    obtain ⟨_, _, planId, agentId, parentRunId, rfl⟩ := hStarts
    obtain ⟨started, rfl, hOpen⟩ := draft_startRun hDraft
    cases mem_singleton.mp hIn
    refine ⟨h.duty_open hOpen, fun event hEvent hShuts => ?_⟩
    have hOther := h.mem_of_work hEvent (.inl (isWork_of_shuts hShuts))
    rw [mem_singleton.mp hOther] at hShuts
    cases hShuts
  · have hIn := h.mem_of_work hMem (.inl ⟨_, rfl⟩)
    obtain ⟨events, hEvents, rfl⟩ := draft_unreconciled hDraft
    rcases mem_append.mp hIn with hIn | hIn
    · exact (unreconciled_records _ _ _ hEvents _ hIn).restrained.creates plan rfl
    · obtain ⟨closure, hClosure, hIs⟩ := mem_map.mp hIn
      obtain ⟨planId, fromStatus, hCloses⟩ := Reconciliation.drain_closes hClosure
      cases hCloses.symm.trans (Event.plan.inj hIs)

include h in
theorem Accepted.applied_kept {outcome : Except CoreError Unit} {applied : Database}
    (hApplied : Projections.applyEvents (env.part 4) persisted appended = (outcome, applied)) (hKept : db.duty.Kept) :
    applied.duty.Kept := by
  obtain ⟨taken, left, hSplit, hDuty⟩ := Projections.applyEvents_duty hApplied
  have hSafe := h.safe hKept
  rw [hSplit] at hSafe
  rw [hDuty]
  exact hSafe.kept_foldl

end Handler

def SameDuty (before after : Database) : Prop := after.duty = before.duty

theorem SameDuty.work : WorkRelation SameDuty where
  trans _ _ _ h h' := Eq.trans h' h
  same before after h := by
    unfold SameDuty Database.duty
    rw [h.plans, h.runs]

namespace Server

variable {config : Config} {db : Database} {call : Call}

theorem serve_kept (h : db.duty.Kept) : (serve config db call).duty.Kept := by
  have hSame : ∀ {after : Database}, SameDuty db after → after.duty.Kept := fun hDuty => hDuty.symm ▸ h
  cases call with
  | command env caller command claimed =>
    show (Handler.handleWithRunOwner config env caller command claimed db).2.duty.Kept
    refine @Handler.handle_rule config env caller command claimed db (fun after => after.duty.Kept) (fun hAudited => ?_)
      (fun hAccepted hApplied => hAccepted.applied_kept hApplied h) fun ⟨_, _, _, _, _, _, hLines, _⟩ hKept => ?_
    · obtain ⟨_, _, _, _, _, _, rfl⟩ := hAudited
      exact h
    · rw [hLines]
      exact hKept
  | _ =>
    refine hSame (serve_work SameDuty.work (fun event hNoticed db => ?_) rfl)
    obtain ⟨id, instant, rfl | rfl⟩ := hNoticed
    · exact RunRepo.duty_applyRunEvent
    · exact RunRepo.duty_applyRunEvent

/-- Every active run is on a stored plan that is neither closed nor archived. -/
def ActiveRunsOnOpenPlans (db : Database) : Prop := ∀ run ∈ db.runs, run.status = .active →
  ∃ plan, db.plans.find? run.planId = some plan ∧ plan.status ≠ .completed ∧ plan.status ≠ .abandoned ∧
    plan.archivedAt = none

theorem activeRunsOnOpenPlans_of_kept (h : db.duty.Kept) : ActiveRunsOnOpenPlans db := by
  intro run hRun hActive
  have hFound : db.runs.find? run.id = some run := find?_of_mem hRun
  obtain ⟨status, hPlan, hOpen⟩ := h run.id run.planId (Database.duty_active.mpr ⟨run, hFound, rfl, hActive⟩)
  obtain ⟨plan, hStored, hDuty⟩ := map_eq_some_iff.mp (show (db.plans.find? _).map _ = _ from hPlan)
  obtain ⟨hStatus, hArchived⟩ := Prod.mk.inj hDuty
  refine ⟨plan, hStored, ?_, ?_, ?_⟩
  · exact hStatus ▸ hOpen.1
  · exact hStatus ▸ hOpen.2
  · exact isNone_iff_eq_none.mp (isSome_eq_false_iff.mp hArchived)

/-- In every reachable state, active runs are on open plans. -/
theorem active_runs_on_open_plans (config : Config) (calls : List Call) : ActiveRunsOnOpenPlans (run config calls) := by
  have hEmpty : Database.empty.duty.Kept := fun id planId hActive => by cases hActive
  have hKept : (run config calls).duty.Kept := by
    refine @run_induction config (fun _ _ => True) (fun db => db.duty.Kept) hEmpty ?_ calls
      (Meets.of_forall fun _ _ => trivial)
    exact fun _ _ h _ => serve_kept h
  exact activeRunsOnOpenPlans_of_kept hKept

end Server
end Daruma
