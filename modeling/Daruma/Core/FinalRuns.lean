import Daruma.Core.RunHistory

/-! Runs that have ended stay as they ended, and completed runs have no open step. -/
namespace Daruma

open AgentClaimRepo (ownsEveryRun activeRuns)
open Database (runEnding stepsOf)
open RunRepo (applyRunEvent applyRunEvent_other updateRun endRun)

def TerminalRun (db : Database) (id : RunId) : Prop := ∃ run, db.runs.find? id = some run ∧ run.status ≠ .active

def CompletedRun (db : Database) (id : RunId) : Prop := ∃ outcome, db.runEnding id = some (.completed, outcome)

/-- Runs that have ended keep their status, their outcome and their steps. -/
def TerminalKept (before after : Database) : Prop :=
  ∀ id, TerminalRun before id → after.runEnding id = before.runEnding id ∧ after.stepsOf id = before.stepsOf id

def CompletedClosed (db : Database) : Prop := ∀ id, CompletedRun db id → StepsClosed db id

/-- A state in which a run has ended in a way leads to states in which it has. -/
def KeepsEnding (id : RunId) (ending : RunStatus × Option String) (steps : List RunStep) (before after : Database) :
    Prop := EndedAs id ending steps before → EndedAs id ending steps after

/-- Runs that are completed were, or are among those that a call may complete. -/
def GainsCompleted (completes : RunId → Prop) (before after : Database) : Prop :=
  ∀ id, CompletedRun after id → CompletedRun before id ∨ completes id

section

variable {db before after : Database} {id : RunId} {ending : RunStatus × Option String} {steps : List RunStep}

theorem TerminalKept.refl (db : Database) : TerminalKept db db := fun _ _ => ⟨rfl, rfl⟩

theorem terminalRun_of_ending (h : db.runEnding id = some ending) (hEnded : ending.1 ≠ .active) : TerminalRun db id := by
  obtain ⟨run, hFound, rfl⟩ := Option.map_eq_some_iff.mp h
  exact ⟨run, hFound, hEnded⟩

theorem TerminalRun.not_active (h : TerminalRun db id) : ¬ActiveRun db id := by
  rintro ⟨active, hActive, hIs⟩
  obtain ⟨run, hFound, hEnded⟩ := h
  obtain rfl := Option.some.inj (hFound.symm.trans hActive)
  exact hEnded hIs

theorem TerminalKept.trans {first second third : Database} (h : TerminalKept first second)
    (h' : TerminalKept second third) : TerminalKept first third := by
  intro id hTerminal
  obtain ⟨hEnding, hSteps⟩ := h id hTerminal
  obtain ⟨run, hFound, hEnded⟩ := hTerminal
  have hSecond : second.runEnding id = some (run.status, run.outcome) := by
    rw [hEnding, runEnding, hFound]
    rfl
  obtain ⟨hEnding', hSteps'⟩ := h' id (terminalRun_of_ending hSecond hEnded)
  exact ⟨hEnding'.trans hEnding, hSteps'.trans hSteps⟩

theorem KeepsEnding.work (id : RunId) (ending : RunStatus × Option String) (steps : List RunStep) :
    WorkRelation (KeepsEnding id ending steps) where
  trans := fun _ _ _ h h' hFirst => h' (h hFirst)
  same := fun before after h hBefore => by
    unfold EndedAs runEnding stepsOf at *
    rwa [h.runs, h.runSteps]

theorem GainsCompleted.work (completes : RunId → Prop) : WorkRelation (GainsCompleted completes) where
  trans := fun _ _ _ h h' id hThird => (h' id hThird).elim (h id) .inr
  same := fun before after h id hAfter => by
    unfold CompletedRun runEnding at *
    rw [h.runs] at hAfter
    exact .inl hAfter

def SameSteps (before after : Database) : Prop := after.runSteps = before.runSteps

theorem SameSteps.work : WorkRelation SameSteps where
  trans := fun _ _ _ h h' => Eq.trans h' h
  same := fun _ _ h => h.runSteps

theorem stepsClosed_congr (h : after.stepsOf id = before.stepsOf id) (hClosed : StepsClosed before id) :
    StepsClosed after id := by
  intro step hStep hIs
  have hIn : step ∈ before.stepsOf id := h ▸ List.mem_filter.mpr ⟨hStep, decide_eq_true hIs⟩
  exact hClosed step (List.mem_filter.mp hIn).1 hIs

theorem runEnding_stepEvent {event : RunEvent} (h : (∃ runId taskId instant, event = .runStepStarted runId taskId instant) ∨
    ∃ runId taskId outcome instant, event = .runStepFinished runId taskId outcome instant) :
    (applyRunEvent db event).runEnding id = db.runEnding id := by
  rcases h with ⟨runId, taskId, instant, rfl⟩ | ⟨runId, taskId, outcome, instant, rfl⟩
  · exact RunRepo.runEnding_touchActivity
  · exact RunRepo.runEnding_finishStepRow.trans RunRepo.runEnding_touchActivity

theorem not_completed_of_ended {runId : RunId} {status : RunStatus} {reason : String} {instant : Timestamp}
    (hStatus : status ≠ .completed)
    (h : CompletedRun (updateRun db runId (endRun status reason instant)) id) : CompletedRun db id := by
  obtain ⟨outcome, hEnding⟩ := h
  have hUpdated : (updateRun db runId (endRun status reason instant)).runEnding id =
      (db.runs.find? id).map fun run => if runId = id then (status, some reason) else (run.status, run.outcome) :=
    RunRepo.runEnding_updateRun fun _ => rfl
  obtain ⟨run, hFound, hIs⟩ := Option.map_eq_some_iff.mp (hUpdated.symm.trans hEnding)
  split at hIs
  · cases hIs
    exact absurd rfl hStatus
  · refine ⟨outcome, ?_⟩
    rw [runEnding, hFound, ← hIs]
    rfl

end

namespace Server

open Handler (builderEnv)

variable {config : Config} {db : Database} {call : Call}

/-- A new run has a new id; the end of a step goes to an active run or repeats the
last one; a caller without an identity ends only active runs, or as they have
ended; and a plan is completed when its active runs have closed their steps. -/
def KeepsTerminal (db : Database) : Call → Prop
  | .command env _ (.run (.startRun ..)) _ => db.runs.find? ((builderEnv env).fresh 0) = none
  | .command _ _ (.run (.runFinishStep id taskId outcome)) _ => TerminalRun db id → RepeatsStep db id taskId outcome
  | .command _ caller (.run (.failRun id reason)) _ =>
    caller.agentId = none → TerminalRun db id → db.runEnding id = some (.failed, some reason)
  | .command _ caller (.run (.abortRun id reason)) _ =>
    caller.agentId = none → TerminalRun db id → db.runEnding id = some (.aborted, some reason)
  | .command _ caller (.plan (.setPlanStatus planId .completed ..)) _ => Completable db planId →
      ownsEveryRun db caller.agentId caller.isAdmin (activeRuns db planId) = true →
        ∀ run ∈ activeRuns db planId, StepsClosed db run.id
  | _ => True

variable {env : Env} {caller : Caller} {command : Command} {claimed : Actor}

theorem keepsEnding_of_warranted {batch relations trail persisted appended} {id : RunId} {ending : RunStatus × Option String} {steps : List RunStep}
    (hKeeps : KeepsTerminal db (.command env caller command claimed))
    (h : Handler.Accepted config env caller command claimed db batch relations trail persisted appended)
    (hEnding : db.runEnding id = some ending) (hTerminal : TerminalRun db id) {event : RunEvent}
    (hMem : .run event ∈ batch) (before : Database) :
    KeepsEnding id ending steps before (applyRunEvent before event) := by
  rintro ⟨hBefore, hSteps⟩
  have hOther : event.writes ≠ some id → EndedAs id ending steps (applyRunEvent before event) := by
    intro hWrites
    obtain ⟨hSame, hSameSteps⟩ := applyRunEvent_other hWrites
    exact ⟨hSame.trans hBefore, hSameSteps.trans hSteps⟩
  have hActive := hTerminal.not_active
  have hAgain : ∀ {status : RunStatus} {reason : String} {instant : Timestamp},
      (command = .run (.failRun id reason) ∨ command = .run (.abortRun id reason)) →
      (caller.agentId = none → db.runEnding id = some (status, some reason)) →
      EndedAs id ending steps (updateRun before id (endRun status reason instant)) := by
    intro status reason instant hCommand hSame
    cases hAgent : caller.agentId with
    | some agentId =>
      obtain ⟨_, run, _, _, hEnds, hEnded⟩ := h.run_terminated hAgent
        (hCommand.imp (fun h => ⟨id, reason, h⟩) fun h => ⟨id, reason, h⟩)
      obtain rfl := hEnds.names hCommand
      exact absurd ⟨run, hEnded.stored, hEnded.active⟩ hActive
    | none =>
      have hIs : before.runEnding id = some (status, some reason) :=
        hBefore.trans (hEnding.symm.trans (hSame hAgent))
      exact ⟨(RunRepo.endRun_again hIs).trans hBefore, hSteps⟩
  have hWarranted : RunWarranted db (builderEnv env) command event := h.warranted hMem rfl
  by_cases hWrites : event.writes = some id
  swap
  · exact hOther hWrites
  cases event with
  | runStarted run =>
    cases hWrites
    obtain ⟨hId, _, planId, agentId, parentRunId, rfl⟩ := hWarranted
    obtain ⟨stored, hStored, _⟩ := hTerminal
    rw [hId] at hStored
    cases (show db.runs.find? _ = none from hKeeps).symm.trans hStored
  | runStepStarted =>
    cases hWrites
    exact absurd hWarranted.2 hActive
  | runStepFinished =>
    cases hWrites
    rcases hWarranted with ⟨rfl, hNew⟩ | ⟨hIs, _⟩
    · exact absurd (hKeeps hTerminal) hNew
    · exact absurd hIs hActive
  | runCompleted =>
    cases hWrites
    exact absurd hWarranted.2.1 hActive
  | runFailed runId reason =>
    cases hWrites
    obtain rfl : command = .run (.failRun id reason) := hWarranted
    exact hAgain (.inl rfl) fun hAgent => hKeeps hAgent hTerminal
  | runAborted runId reason =>
    cases hWrites
    rcases hWarranted with rfl | ⟨hIs, _⟩
    · exact hAgain (.inr rfl) fun hAgent => hKeeps hAgent hTerminal
    · exact absurd hIs hActive
  | _ => cases hWrites

theorem serve_terminalKept (hKeeps : KeepsTerminal db call) : TerminalKept db (serve config db call) := by
  intro id hTerminal
  obtain ⟨run, hFound, hEnded⟩ := hTerminal
  have hEnding : db.runEnding id = some (run.status, run.outcome) := by
    rw [runEnding, hFound]
    rfl
  have hKept : KeepsEnding id (run.status, run.outcome) (db.stepsOf id) db (serve config db call) := by
    cases call with
    | command env caller command claimed =>
      refine Handler.handle_work (KeepsEnding.work _ _ _) fun {batch relations trail persisted appended} hAccepted => ?_
      refine ⟨fun hBefore => ?_, fun event _ before env envelope => ?_, fun event hMem before =>
        keepsEnding_of_warranted hKeeps hAccepted hEnding ⟨run, hFound, hEnded⟩ hMem before⟩
      · refine ⟨?_, ?_⟩
        · rcases hAccepted.stored_runEnding id with hSame | hEnds
          · exact hSame.trans hBefore.1
          · exact absurd hEnds.active (TerminalRun.not_active ⟨run, hFound, hEnded⟩)
        · rw [stepsOf, hAccepted.stored_runSteps]
          exact hBefore.2
      · obtain ⟨_, _, _, _, hFrame⟩ := PlanRepo.applyPlanEvent_frame before env envelope event
        rw [hFrame]
        exact fun hBefore => hBefore
    | _ =>
      refine serve_work (KeepsEnding.work _ _ _) (fun event hNoticed before hBefore => ?_) rfl
      have hWrites : event.writes ≠ some id := by
        rcases hNoticed with ⟨_, _, rfl | rfl⟩ <;> (intro hIs; cases hIs)
      obtain ⟨hSame, hSteps⟩ : (applyRunEvent before event).runEnding id = before.runEnding id ∧ _ :=
        applyRunEvent_other hWrites
      exact ⟨hSame.trans hBefore.1, hSteps.trans hBefore.2⟩
  obtain ⟨hAfter, hSteps⟩ := hKept ⟨hEnding, rfl⟩
  exact ⟨hAfter.trans hEnding.symm, hSteps⟩

def MayComplete (db : Database) (command : Command) (id : RunId) : Prop :=
  StepsClosed db id ∧ ((∃ runId, command = .run (.completeRun runId)) ∨
    ∃ planId force overrideReason, command = .plan (.setPlanStatus planId .completed force overrideReason))

theorem handle_gainsCompleted (hKeeps : KeepsTerminal db (.command env caller command claimed)) :
    GainsCompleted (MayComplete db command) db (serve config db (.command env caller command claimed)) := by
  refine Handler.handle_work (GainsCompleted.work _) fun {batch relations trail persisted appended} hAccepted => ?_
  refine ⟨fun id hAfter => ?_, fun event _ before env envelope => ?_, fun event hMem before id hAfter => ?_⟩
  · rcases hAccepted.stored_runEnding id with hSame | ⟨hActive, status, reason, _, hEnding, hCompletes⟩
    · obtain ⟨outcome, hOutcome⟩ := hAfter
      exact .inl ⟨outcome, hSame.symm.trans hOutcome⟩
    · obtain ⟨outcome, hOutcome⟩ := hAfter
      cases hEnding.symm.trans hOutcome
      obtain ⟨planId, force, overrideReason, run, rfl, hCompletable, hFound, hPlan, hOwns⟩ := hCompletes rfl
      obtain ⟨active, hStored, hIs⟩ := hActive
      obtain rfl := Option.some.inj (hFound.symm.trans hStored)
      have hId : run.id = id := KeyedTable.key_of_find? hFound
      have hRun : run ∈ activeRuns db planId := AgentClaimRepo.mem_activeRuns.mpr ⟨hId.symm ▸ hFound, hPlan, hIs⟩
      exact .inr ⟨hId ▸ hKeeps hCompletable hOwns run hRun, .inr ⟨planId, force, overrideReason, rfl⟩⟩
  · obtain ⟨_, _, _, _, hFrame⟩ := PlanRepo.applyPlanEvent_frame before env envelope event
    rw [hFrame]
    exact fun id hAfter => .inl hAfter
  · have hWarranted : RunWarranted db (builderEnv env) command event := hAccepted.warranted hMem rfl
    by_cases hWrites : event.writes = some id
    swap
    · obtain ⟨outcome, hOutcome⟩ := hAfter
      exact .inl ⟨outcome, (applyRunEvent_other hWrites).1.symm.trans hOutcome⟩
    cases event with
    | runStarted run =>
      cases hWrites
      obtain ⟨outcome, hOutcome⟩ := hAfter
      change Option.map _ ((before.runs.insertOrReplace _).find? run.id) = _ at hOutcome
      rw [KeyedTable.find?_insertOrReplace, if_pos rfl] at hOutcome
      cases (congrArg Prod.fst (Option.some.inj hOutcome)).symm.trans hWarranted.2.1
    | runStepStarted runId taskId instant =>
      obtain ⟨outcome, hOutcome⟩ := hAfter
      exact .inl ⟨outcome, (runEnding_stepEvent (.inl ⟨runId, taskId, instant, rfl⟩)).symm.trans hOutcome⟩
    | runStepFinished runId taskId outcome instant =>
      obtain ⟨_, hOutcome⟩ := hAfter
      exact .inl ⟨_, (runEnding_stepEvent (.inr ⟨runId, taskId, outcome, instant, rfl⟩)).symm.trans hOutcome⟩
    | runCompleted runId =>
      cases hWrites
      exact .inr ⟨hWarranted.2.2, .inl ⟨_, hWarranted.1⟩⟩
    | runFailed runId reason =>
      have hOther : RunStatus.failed ≠ .completed := nofun
      exact .inl (not_completed_of_ended hOther hAfter)
    | runAborted runId reason =>
      have hOther : RunStatus.aborted ≠ .completed := nofun
      exact .inl (not_completed_of_ended hOther hAfter)
    | _ => cases hWrites

theorem handle_sameSteps {id : RunId}
    (hMay : MayComplete db command id) : SameSteps db (serve config db (.command env caller command claimed)) := by
  refine Handler.handle_work SameSteps.work fun {batch relations trail persisted appended} hAccepted => ?_
  refine ⟨hAccepted.stored_runSteps, fun event _ before env envelope => ?_, fun event hMem before => ?_⟩
  · obtain ⟨_, _, _, _, hFrame⟩ := PlanRepo.applyPlanEvent_frame before env envelope event
    rw [hFrame]
    rfl
  · have hWarranted : RunWarranted db (builderEnv env) command event := hAccepted.warranted hMem rfl
    cases event with
    | runStepStarted =>
      obtain ⟨rfl, _⟩ := hWarranted
      rcases hMay.2 with ⟨_, hIs⟩ | ⟨_, _, _, hIs⟩ <;> cases hIs
    | runStepFinished =>
      rcases hWarranted with ⟨rfl, _⟩ | ⟨_, _, rfl⟩
      · rcases hMay.2 with ⟨_, hIs⟩ | ⟨_, _, _, hIs⟩ <;> cases hIs
      · rcases hMay.2 with ⟨_, hIs⟩ | ⟨_, _, _, hIs⟩ <;> cases hIs
    | _ => rfl

theorem serve_completedClosed (h : CompletedClosed db) (hKeeps : KeepsTerminal db call) :
    CompletedClosed (serve config db call) := by
  intro id hAfter
  by_cases hTerminal : TerminalRun db id
  · have hKept : TerminalKept db (serve config db call) := serve_terminalKept hKeeps
    obtain ⟨hEnding, hSteps⟩ := hKept id hTerminal
    obtain ⟨outcome, hOutcome⟩ := hAfter
    exact stepsClosed_congr hSteps (h id ⟨outcome, hEnding.symm.trans hOutcome⟩)
  have hBefore : ¬CompletedRun db id := by
    rintro ⟨outcome, hOutcome⟩
    exact hTerminal (terminalRun_of_ending hOutcome (by rintro ⟨⟩))
  cases call with
  | command env caller command claimed =>
    obtain hOld | hMay := handle_gainsCompleted hKeeps id hAfter
    · exact absurd hOld hBefore
    · have hSame : SameSteps db (serve config db (.command env caller command claimed)) := handle_sameSteps hMay
      refine stepsClosed_congr ?_ hMay.1
      rw [stepsOf, hSame]
      rfl
  | _ =>
    refine absurd ?_ hBefore
    refine (serve_work (GainsCompleted.work fun _ => False) (fun event hNoticed before id hAfter => ?_) rfl id
      hAfter).resolve_right not_false
    have hWrites : event.writes ≠ some id := by
      rcases hNoticed with ⟨_, _, rfl | rfl⟩ <;> (intro hIs; cases hIs)
    obtain ⟨outcome, hOutcome⟩ := hAfter
    exact .inl ⟨outcome, (applyRunEvent_other hWrites).1.symm.trans hOutcome⟩

/-- In a run whose calls keep what has ended, runs stay as they ended from any state
on, and completed runs have no open step. -/
theorem terminal_runs_final {earlier later : List Call}
    (hMeets : Meets config KeepsTerminal Database.empty (earlier ++ later)) :
    TerminalKept (run config earlier) (run config (earlier ++ later)) ∧ CompletedClosed (run config (earlier ++ later)) := by
  have hEmpty : CompletedClosed Database.empty := fun id ⟨_, hOutcome⟩ => by cases hOutcome
  refine ⟨?_, run_induction hEmpty (fun _ _ => serve_completedClosed) hMeets⟩
  have hServe : ∀ db call, TerminalKept (run config earlier) db → KeepsTerminal db call →
      TerminalKept (run config earlier) (serve config db call) :=
    fun _ _ hKept hKeeps => hKept.trans (serve_terminalKept hKeeps)
  rw [run, run, List.foldl_append]
  exact foldl_induction hServe (TerminalKept.refl _) hMeets.split.2

theorem keepsTerminal_start {planId : PlanId} {agentId : AgentId} {parentRunId : Option RunId} (hNew : db.runs.find? ((builderEnv env).fresh 0) = none) :
    KeepsTerminal db (.command env caller (.run (.startRun planId agentId parentRunId)) claimed) := hNew

private def agentCommands (list : List Command) : List Call :=
  list.mapIdx fun n command => .command (nthEnv n) ⟨some ⟨5⟩, false⟩ command .anyUser

private def startedRun : List Command := [
  .plan (.createPlan (NewPlan.new "plan" ⟨0⟩ .anyUser) none),
  .plan (.setPlanStatus ((builderEnv (nthEnv 0)).fresh 0) .active false none),
  .run (.startRun ((builderEnv (nthEnv 0)).fresh 0) ⟨5⟩ none)]

private def startedId : RunId := (builderEnv (nthEnv 2)).fresh 0

private def completedCalls : List Call :=
  agentCommands (startedRun ++ [.run (.completeRun startedId), .run (.abortRun startedId "late")])

theorem terminal_runs_final_completed :
    TerminalKept (run engineConfig (completedCalls.take 4)) (run engineConfig (completedCalls.take 4 ++ completedCalls.drop 4)) ∧
      CompletedClosed (run engineConfig (completedCalls.take 4 ++ completedCalls.drop 4)) :=
  terminal_runs_final ⟨trivial, trivial, keepsTerminal_start (by decide +kernel), trivial, nofun, trivial⟩

private def failedCalls : List Call :=
  agentCommands (startedRun ++ [.run (.runStartStep startedId ⟨7⟩), .run (.failRun startedId "lost")])

private def lateFinish : Call :=
  .command (nthEnv 5) ⟨some ⟨5⟩, false⟩ (.run (.runFinishStep startedId ⟨7⟩ .done)) .anyUser

theorem failed_run_step_finished :
    ¬TerminalKept (run engineConfig failedCalls) (run engineConfig (failedCalls ++ [lateFinish])) := by
  intro hKept
  have hEnding : (run engineConfig failedCalls).runEnding startedId = some (.failed, some "lost") := by decide +kernel
  have hChanged : (run engineConfig (failedCalls ++ [lateFinish])).stepsOf startedId ≠
      (run engineConfig failedCalls).stepsOf startedId := by decide +kernel
  exact hChanged (hKept _ (terminalRun_of_ending hEnding nofun)).2

end Server
end Daruma
