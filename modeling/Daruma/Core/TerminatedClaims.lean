import Daruma.Core.RunHistory
import Daruma.Core.TaskCleanup

/-! What the failure or abort of a run, and the end of a plan, release: the claims of
the runs that they end, in the batch that ends them. -/
namespace Daruma

open Outcome List
open EventEnvelope (payload)
open Server (nthEnv engineConfig run commands)

/-- An event that no projection refuses, and that releases no claim of the table. -/
def Event.SettledFor (claims : AgentClaims) : Event → Prop
  | .plan _ | .audit _ => True
  | .run event => event.isNote = false
  | .claim (.agentReleased agentId taskId (some claimId)) =>
    ∀ row ∈ claims, ¬(row.key = (agentId, taskId) ∧ row.claimId = claimId)
  | _ => False

namespace Projections

variable {env : Env} {envelope : EventEnvelope} {db db' : Database} {claims : AgentClaims}

def HasClaims (claims : AgentClaims) (db : Database) : Prop := db.agentClaims = claims

def KeepsClaims (claims : AgentClaims) (before after : Database) : Prop :=
  HasClaims claims before → HasClaims claims after

theorem projectors_keepsClaims (hEvent : envelope.payload.SettledFor claims) {step : Database → Result Database}
    (hStep : step ∈ projectors env envelope) (h : step db = .ok db') : KeepsClaims claims db db' := by
  obtain ⟨_, hWrote⟩ := exists_wrote hStep h
  intro hClaims
  cases hWrote with
  | claims hApplied =>
    unfold AgentClaimRepo.applyEvent at hApplied
    split at hApplied
    · rename_i hPayload
      rw [hPayload] at hEvent
      exact absurd hEvent not_false
    · rename_i hPayload
      rw [hPayload] at hEvent
      exact absurd hEvent not_false
    · rename_i agentId taskId claimId hPayload
      rw [hPayload] at hEvent
      cases hApplied
      refine Eq.trans ?_ hClaims
      refine KeyedTable.filter_eq_self fun row hRow => ?_
      have hOther := hEvent row (hClaims ▸ hRow)
      rw [AgentClaim.key, Prod.mk.injEq] at hOther
      simpa [imp_iff_not_or, or_assoc] using hOther
    · rename_i hPayload
      rw [hPayload] at hEvent
      exact absurd hEvent not_false
    · exact (congrArg Database.agentClaims (Except.ok.inj hApplied)).symm.trans hClaims
  | _ => exact hClaims

theorem projectors_settled (hEvent : envelope.payload.SettledFor claims) {step : Database → Result Database}
    (hStep : step ∈ projectors env envelope) (db : Database) : ∃ db', step db = .ok db' := by
  obtain ⟨id, seq, occurredAt, actor, originDeviceId, originSeq, payload⟩ := envelope
  simp only [projectors, mem_cons, not_mem_nil, or_false] at hStep
  cases payload with
  | plan event | audit event =>
    rcases hStep with rfl | rfl | rfl | rfl | rfl | rfl | rfl | rfl | rfl | rfl | rfl | rfl | rfl <;> exact ⟨_, rfl⟩
  | run event =>
    cases event with
    | runNoteAppended => cases hEvent
    | _ =>
      rcases hStep with rfl | rfl | rfl | rfl | rfl | rfl | rfl | rfl | rfl | rfl | rfl | rfl | rfl <;> exact ⟨_, rfl⟩
  | claim event =>
    cases event with
    | agentReleased agentId taskId claimId =>
      cases claimId with
      | none => exact absurd hEvent not_false
      | some claimId =>
        rcases hStep with rfl | rfl | rfl | rfl | rfl | rfl | rfl | rfl | rfl | rfl | rfl | rfl | rfl <;>
          exact ⟨_, rfl⟩
    | _ => exact absurd hEvent not_false
  | _ => exact absurd hEvent not_false

theorem applyEvents_settled {envelopes : List EventEnvelope}
    (hEvents : ∀ envelope ∈ envelopes, envelope.payload.SettledFor db.agentClaims) :
    ∃ db', applyEvents env envelopes db = (.ok (), db') ∧ HasClaims db.agentClaims db' := by
  refine Stateful.inTurn_total (fun step hStep before hClaims => ?_) rfl
  obtain ⟨envelope, hEnvelope, hProjector⟩ := mem_flatMap.mp hStep
  have hSettled := hEvents envelope hEnvelope
  obtain ⟨after, hApplied⟩ := projectors_settled hSettled hProjector before
  exact ⟨after, hApplied, projectors_keepsClaims hSettled hProjector hApplied hClaims⟩

end Projections

def Command.endsRun : Command → Bool
  | .run (.failRun ..) | .run (.abortRun ..) => true
  | _ => false

theorem Command.endsRun_cases {command : Command} (h : command.endsRun = true) :
    (∃ id reason, command = .run (.failRun id reason)) ∨ ∃ id reason, command = .run (.abortRun id reason) := by
  unfold Command.endsRun at h
  split at h
  · exact .inl ⟨_, _, rfl⟩
  · exact .inr ⟨_, _, rfl⟩
  · cases h

/-- A change of a plan or of a run that is more than a note. -/
def Event.isWork : Event → Bool
  | .plan _ => true
  | .run event => !event.isNote
  | _ => false

abbrev AllWork (events : List Event) : Prop := Everywhere (fun event : Event => event.isWork = true) events

theorem RunCommands.failRun_work {db : Database} {now : Timestamp} {id : RunId} {reason : String} :
    Yields (failRun db now id reason) fun events => AllWork (events.map .run) :=
  .andThen fun _ _ => .pure (.cons rfl .nil)

theorem RunCommands.abortRun_work {db : Database} {now : Timestamp} {id : RunId} {reason : String} :
    Yields (abortRun db now id reason) fun events => AllWork (events.map .run) :=
  .andThen fun _ _ => .pure (.cons rfl .nil)

theorem PlanCommands.abortedRuns_work {db : Database} {now : Timestamp} {id : PlanId} {reason : String} :
    AllWork (abortedRuns db now id reason) :=
  .flatMap fun _ => .cons rfl (.cons rfl .nil)

theorem PlanCommands.archivePlan_work {db : Database} {now : Timestamp} {id : PlanId} :
    Yields (archivePlan db now id) AllWork :=
  .andThen fun _ _ => .ite (fun _ => .pure .nil) fun _ => .pure (.cons rfl abortedRuns_work)

theorem PlanCommands.deletePlan_work {db : Database} {now : Timestamp} {id : PlanId} :
    Yields (deletePlan db now id) AllWork :=
  .andThen fun _ _ => .andThen fun _ _ => .pure (.cons rfl abortedRuns_work)

theorem PlanCommands.setPlanStatus_work {db : Database} {id : PlanId} {status : PlanStatus} :
    Yields (setPlanStatus db id status) fun events => AllWork (events.map .plan) :=
  .mono (fun _ _ => trivial) fun _ _ => .map fun _ => rfl

namespace Handler

variable {config : Config} {env : Env} {caller : Caller} {command : Command} {claimed : Actor} {db after : Database}
  {batch : List Event} {relations : Relations} {trail : GateStage.Trail} {persisted : List EventEnvelope}
  {appended : Database} {outcome : Except CoreError DispatchOutcome}

theorem allWork_authenticated {built : List Event} (h : AllWork built) : AllWork (built.map (authenticated caller)) := by
  refine forall_mem_map.mpr fun event hMem => ?_
  have hWork : event.isWork = true := h event hMem
  cases event with
  | plan | run => exact hWork
  | _ => cases hWork

variable (h : Accepted config env caller command claimed db batch relations trail persisted appended)

include h in
theorem Accepted.allWork (hEnds : command.endsRun = true ∨ endsPlan command = true) : AllWork batch := by
  have hBatch : ∀ {built : List Event}, AllWork built → batch = built.map (authenticated caller) ++
      (Reconciliation.planReconciliations db (built.map (authenticated caller))).map .plan → AllWork batch := by
    rintro built hBuilt rfl
    exact .append (allWork_authenticated hBuilt) (.map fun _ => rfl)
  obtain ⟨warnings, hDraft⟩ := h.built
  rcases hEnds with hRun | hPlan
  · rcases Command.endsRun_cases hRun with ⟨id, reason, rfl⟩ | ⟨id, reason, rfl⟩
    · obtain ⟨built, hBuilt, hIs⟩ := draft_of_unsourced rfl hDraft
      obtain ⟨events, hEvents, rfl⟩ := map_eq_ok.mp (Stateful.lift_eq.mp hBuilt).1
      exact hBatch (RunCommands.failRun_work _ hEvents) hIs
    · obtain ⟨built, hBuilt, hIs⟩ := draft_of_unsourced rfl hDraft
      obtain ⟨events, hEvents, rfl⟩ := map_eq_ok.mp (Stateful.lift_eq.mp hBuilt).1
      exact hBatch (RunCommands.abortRun_work _ hEvents) hIs
  · unfold endsPlan at hPlan
    split at hPlan
    · obtain ⟨built, hBuilt, hIs⟩ := h.of_plan rfl
      exact hBatch (PlanCommands.archivePlan_work _ hBuilt) hIs
    · obtain ⟨built, hBuilt, hIs⟩ := h.of_plan rfl
      exact hBatch (PlanCommands.deletePlan_work _ hBuilt) hIs
    · obtain ⟨built, hBuilt, hIs⟩ := h.of_plan rfl
      obtain ⟨events, hEvents, rfl⟩ := map_eq_ok.mp hBuilt
      exact hBatch (PlanCommands.setPlanStatus_work _ hEvents) hIs
    · cases hPlan

inductive Terminated (db : Database) (caller : Caller) (command : Command) (events : List Event) (after : Database) :
    Prop
  | run {requester : AgentId} {run : Run} {status : RunStatus} {reason : String} (hCaller : caller.agentId = some requester)
      (hRecorded : EndsRunAs command run.id status reason events)
      (hTerminated : AgentClaimRepo.RunTerminated db requester caller.isAdmin run status reason after)
  | plan {planId : PlanId} {status : RunStatus} {reason : String} {now endedAt : Timestamp}
      (hCommand : command.endedPlan = some planId)
      (hRecorded : ∃ event ∈ events, AgentClaimRepo.terminalPlanOf now event = some (planId, status, reason, endedAt))
      (hTerminated : AgentClaimRepo.PlanTerminated db caller.agentId caller.isAdmin planId status reason after)
  /-- A caller without an identity fails and aborts runs inside the server, and leaves
  their claims to it. -/
  | inProcess (hCaller : caller.agentId = none) (hCommand : command.endsRun = true)
      (hClaims : after.agentClaims = db.agentClaims)

theorem offered_cases (hSame : withProvenance command = id) (hWork : AllWork batch) {event : Event}
    (hMem : event ∈ (offered env caller command claimed batch trail).map payload) :
    event.isWork = true ∨ event.isAudit = true := by
  rw [offered, hSame, id_eq, envelopesOf_payload, GateStage.Trail.surround] at hMem
  have hAudit : ∀ list : List AuditEvent, event ∈ list.map Event.audit → event.isAudit = true := by
    intro list hIn
    obtain ⟨audit, _, rfl⟩ := mem_map.mp hIn
    rfl
  rcases mem_append.mp hMem with hMem | hMetric
  · rcases mem_append.mp hMem with hTrail | hBatch
    · exact .inr (hAudit _ hTrail)
    · exact .inl (hWork event hBatch)
  · exact .inr (hAudit _ hMetric)

include h in
theorem offered_work (hEnds : command.endsRun = true ∨ endsPlan command = true) {event : Event}
    (hMem : event ∈ (offered env caller command claimed batch trail).map payload) :
    event.isWork = true ∨ event.isAudit = true := by
  refine offered_cases ?_ (h.allWork hEnds) hMem
  unfold endsPlan Command.endsRun at hEnds
  cases command with
  | plan command => cases command <;> first | rfl | (rcases hEnds with hEnds | hEnds <;> cases hEnds)
  | run command => rfl
  | _ => rcases hEnds with hEnds | hEnds <;> cases hEnds

theorem EndsRunAs.mono {id : RunId} {status : RunStatus} {reason : String} {events wider : List Event}
    (h : EndsRunAs command id status reason events) (hMem : ∀ event ∈ events, event ∈ wider) :
    EndsRunAs command id status reason wider :=
  h.imp (fun ⟨hStatus, hIs, instant, hIn⟩ => ⟨hStatus, hIs, instant, hMem _ hIn⟩)
    fun ⟨hStatus, hIs, instant, hIn⟩ => ⟨hStatus, hIs, instant, hMem _ hIn⟩

include h in
theorem Accepted.stored_work (hEnds : command.endsRun = true ∨ endsPlan command = true)
    (hCaller : command.endsRun = true → caller.agentId = none) :
    (if endsPlan command then AgentClaimRepo.recordPlanTerminal { db with relations := relations } (env.part 3)
        (attributedActor caller command claimed) caller.agentId caller.isAdmin
        (offered env caller command claimed batch trail)
      else appendBatch { db with relations := relations } (offered env caller command claimed batch trail)) =
      .ok (persisted, appended) := by
  have hNone : ¬((offered env caller command claimed batch trail).any fun envelope =>
      isTaskLifecycle envelope.payload) = true := by
    rw [any_eq_true]
    rintro ⟨envelope, hMem, hIs⟩
    have hWork := offered_work h hEnds (mem_map_of_mem hMem)
    generalize envelope.payload = event at hIs hWork
    cases event with
    | task event => rcases hWork with hWork | hWork <;> cases hWork
    | _ => cases hIs
  have hStored := h.stored
  unfold persist at hStored
  split at hStored
  · rename_i hAgent
    rcases hEnds with hEnds | hEnds <;> cases hEnds
  · rename_i hAgent
    cases hAgent.symm.trans (hCaller rfl)
  · rename_i hAgent
    cases hAgent.symm.trans (hCaller rfl)
  · rw [if_neg hNone] at hStored
    exact hStored

include h in
theorem Accepted.terminated (hEnds : command.endsRun = true ∨ endsPlan command = true) :
    AgentClaimRepo.StoredWithReleases (env.part 3) (attributedActor caller command claimed)
        (offered env caller command claimed batch trail) persisted appended.agentClaims ∧
      Terminated db caller command (persisted.map payload) appended := by
  have hOffered : ∀ {releases : List Event}, persisted.map payload =
      (offered env caller command claimed batch trail).map payload ++ releases →
      ∀ event ∈ (offered env caller command claimed batch trail).map payload,
        event ∈ persisted.map payload :=
    fun hPayloads event hMem => hPayloads ▸ mem_append_left _ hMem
  by_cases hAuthenticated : command.endsRun = true ∧ caller.agentId.isSome = true
  · obtain ⟨hRun, hAgent⟩ := hAuthenticated
    obtain ⟨agentId, hAgent⟩ := Option.isSome_iff_exists.mp hAgent
    obtain ⟨hReleases, run, status, reason, hRecorded, hEnded⟩ := h.run_terminated hAgent (Command.endsRun_cases hRun)
    refine ⟨hReleases, .run hAgent (hRecorded.mono (hOffered hReleases.choose_spec.1)) ?_⟩
    exact ⟨hEnded.stored, hEnded.active, hEnded.permitted, hEnded.claims, hEnded.ending, hEnded.others⟩
  have hCaller : command.endsRun = true → caller.agentId = none := fun hRun =>
    Option.not_isSome_iff_eq_none.mp fun hAgent => hAuthenticated ⟨hRun, hAgent⟩
  have hStored := h.stored_work hEnds hCaller
  split at hStored
  · rename_i hPlan
    obtain ⟨planId, status, reason, endedAt, hTerminal, hEnded⟩ := AgentClaimRepo.recordPlanTerminal_spec hStored
    have hReleases := AgentClaimRepo.recordPlanTerminal_releases hStored
    obtain ⟨hCommand, _⟩ := h.terminalPlan_command hPlan hTerminal
    rw [AgentClaimRepo.terminalPlan_eq] at hTerminal
    obtain ⟨event, hMem, hIs⟩ := exists_of_findSome?_eq_some hTerminal
    refine ⟨hReleases, .plan hCommand ⟨event, hOffered hReleases.choose_spec.1 event hMem, hIs⟩ ?_⟩
    exact ⟨hEnded.permitted, hEnded.claims, hEnded.endings⟩
  · rename_i hPlan
    have hRun : command.endsRun = true := hEnds.resolve_right hPlan
    refine ⟨⟨[], ?_, fun _ hMem => absurd hMem not_mem_nil⟩, .inProcess (hCaller hRun) hRun ?_⟩
    · rw [(appendBatch_ok hStored).1]
      exact (append_nil _).symm
    · have hClaims := AgentClaimRepo.appendBatch_agentClaims hStored
      exact hClaims

include h in
theorem Accepted.settled (hEnds : command.endsRun = true ∨ endsPlan command = true) :
    ∀ envelope ∈ persisted, envelope.payload.SettledFor appended.agentClaims := by
  intro envelope hEnvelope
  obtain ⟨released, hPayloads, hGone⟩ := (h.terminated hEnds).1
  have hMem := mem_map_of_mem (f := payload) hEnvelope
  rw [hPayloads] at hMem
  rcases mem_append.mp hMem with hOffered | hRelease
  · have hIs := offered_work h hEnds hOffered
    generalize envelope.payload = event at hIs
    cases event with
    | plan | audit => exact trivial
    | run event => exact (Bool.not_eq_true' _).mp (hIs.resolve_right nofun)
    | _ => rcases hIs with hIs | hIs <;> cases hIs
  · obtain ⟨recorded, hRecorded, hIs⟩ := mem_map.mp hRelease
    obtain ⟨n, hn, rfl⟩ := mem_mapIdx.mp hRecorded
    rw [← hIs]
    exact fun row hRow => hGone _ (getElem_mem hn) row hRow

/-- Failing or aborting a run, and ending a plan, leaves runs and claims as they
are, or ends the run or the active runs of the plan with their claims in one batch. -/
theorem termination_releases_own_claims (hEnds : command.endsRun = true ∨ endsPlan command = true)
    (h : handleWithRunOwner config env caller command claimed db = (outcome, after)) :
    ((∀ answer, outcome = .ok answer → answer.events = []) ∧ after.runs = db.runs ∧ after.agentClaims = db.agentClaims) ∨
      ∃ answer stored, outcome = .ok answer ∧ stored.events.rows = db.events.rows ++ answer.events ∧
        Terminated db caller command (answer.events.map EventEnvelope.payload) stored ∧
        ∀ claim, claim ∈ after.agentClaims ↔ claim ∈ stored.agentClaims := by
  cases handled h with
  | unlogged hOutcome _ hAudited =>
    obtain ⟨_, _, _, _, _, _, rfl⟩ := hAudited
    exact .inl ⟨hOutcome, rfl, rfl⟩
  | stranded hAccepted hApplied =>
    obtain ⟨_, hAll, _⟩ := Projections.applyEvents_settled (hAccepted.settled hEnds)
    cases hAll.symm.trans hApplied
  | @projected _ _ _ _ persisted _ applied hAccepted hApplied hAnswer =>
    obtain ⟨_, hAll, hClaims⟩ := Projections.applyEvents_settled (hAccepted.settled hEnds)
    cases hAll.symm.trans hApplied
    have hHolding : AutoAppend.Holding applied (AutoAppend.autoAppendLogs config (env.part 5) applied persisted) :=
      AutoAppend.autoAppendLogs_holding _ _
    refine .inr ⟨_, _, rfl, hAnswer ▸ hAccepted.log, hAnswer ▸ (hAccepted.terminated hEnds).2, fun claim => ?_⟩
    rw [← (show applied.agentClaims = _ from hClaims)]
    exact ⟨hHolding.claims claim, fun hClaim => hHolding.claimsKept claim hClaim not_false⟩

private def activePlan : List Command := [
  .task (.createTask { NewTask.new "task" with id := some ⟨7⟩ }),
  .plan (.createPlan (NewPlan.new "plan" ⟨0⟩ .anyUser) none),
  .plan (.setPlanStatus ((builderEnv (nthEnv 1)).fresh 0) .active false none)]

private def activePlanId : PlanId := (builderEnv (nthEnv 1)).fresh 0

private def activeRunId : RunId := (builderEnv (nthEnv 3)).fresh 0

private def claimedForRun : Database := run engineConfig (commands activePlan ++ [
  .command (nthEnv 3) ⟨some ⟨5⟩, false⟩ (.run (.startRun activePlanId ⟨5⟩ none)) .anyUser,
  .acquireClaim (nthEnv 4) .anyUser ⟨5⟩ ⟨7⟩ 1000000000 (some (activeRunId, activePlanId))])

private def failed : Except CoreError DispatchOutcome × Database :=
  handleWithRunOwner engineConfig (nthEnv 5) ⟨some ⟨5⟩, false⟩ (.run (.failRun activeRunId "lost")) .anyUser
    claimedForRun

theorem termination_releases_own_claims_failed :
    claimedForRun.agentClaims.rows ≠ [] ∧ failed.2.agentClaims.rows = [] ∧
    (((∀ answer, failed.1 = .ok answer → answer.events = []) ∧ failed.2.runs = claimedForRun.runs ∧
        failed.2.agentClaims = claimedForRun.agentClaims) ∨
      ∃ answer stored, failed.1 = .ok answer ∧ stored.events.rows = claimedForRun.events.rows ++ answer.events ∧
        Terminated claimedForRun ⟨some ⟨5⟩, false⟩ (.run (.failRun activeRunId "lost"))
          (answer.events.map EventEnvelope.payload) stored ∧
        ∀ claim, claim ∈ failed.2.agentClaims ↔ claim ∈ stored.agentClaims) :=
  ⟨by decide +kernel, by decide +kernel, termination_releases_own_claims (.inl rfl) Prod.mk.eta.symm⟩

/-- A run without a recorded owner is open on a task that its agent claims for no run. -/
private def unownedRun : Database := run engineConfig (commands (activePlan ++ [
  .run (.startRun activePlanId ⟨5⟩ none), .run (.runStartStep activeRunId ⟨7⟩)]) ++ [
  .acquireClaim (nthEnv 5) .anyUser ⟨5⟩ ⟨7⟩ 1000000000 none])

/-- An administrator who fails the run removes the claim, which is not bound to it. -/
theorem recovery_releases_unbound : ∃ claim ∈ unownedRun.agentClaims.rows, claim.runId = none ∧
    claim ∉ (Server.serve Server.engineConfig unownedRun (.command (Server.nthEnv 6) ⟨some ⟨3⟩, true⟩
      (.run (.failRun activeRunId "lost")) .anyUser)).agentClaims.rows := by decide +kernel

end Handler
end Daruma
