import Daruma.Core.WarrantedBatches
import Daruma.Core.WorkHistory
import Daruma.Storage.RunSteps

/-! What persisting a batch does to runs, and how runs end over a history of calls. -/
namespace Daruma

open Outcome List
open AgentClaimRepo (terminalPlan ownsEveryRun)

namespace AgentClaimRepo

def terminalPlanOf (now : Timestamp) : Event → Option (PlanId × RunStatus × String × Timestamp)
  | .plan (.planArchived planId instant) => some (planId, .aborted, "plan_archived", instant)
  | .plan (.planDeleted planId instant) => some (planId, .aborted, "plan_deleted", instant)
  | .plan (.planStatusChanged planId _ .completed) => some (planId, .completed, "plan_completed", now)
  | .plan (.planStatusChanged planId _ .abandoned) => some (planId, .aborted, "plan_abandoned", now)
  | _ => none

theorem terminalPlan_eq {now : Timestamp} {envelopes : List EventEnvelope} :
    terminalPlan now envelopes = (envelopes.map EventEnvelope.payload).findSome? (terminalPlanOf now) := by
  rw [findSome?_map]
  rfl

end AgentClaimRepo

def Command.endedPlan : Command → Option PlanId
  | .plan (.archivePlan id) | .plan (.deletePlan id) | .plan (.setPlanStatus id ..) => some id
  | _ => none

structure Completable (db : Database) (planId : PlanId) : Prop where
  found : ∃ plan, db.plans.find? planId = some plan ∧ plan.status ≠ .completed
  finished : PlanCommands.ensureMembersFinished db planId = .ok ()

namespace PlanCommands

variable {db : Database} {now : Timestamp} {id : PlanId}

theorem archivePlan_head : Yields (archivePlan db now id) fun events =>
    events ≠ [] → ∃ rest, events = .plan (.planArchived id now) :: rest :=
  .andThen fun _ _ => .ite (fun _ => .pure fun h => absurd rfl h) fun _ => .pure fun _ => ⟨_, rfl⟩

theorem deletePlan_head : Yields (deletePlan db now id) fun events =>
    ∃ rest, events = .plan (.planDeleted id now) :: rest :=
  .andThen fun _ _ => .andThen fun _ _ => .pure ⟨_, rfl⟩

theorem setPlanStatus_head {status : PlanStatus} : Yields (setPlanStatus db id status) fun events => events ≠ [] →
    ∃ fromStatus, events = [.planStatusChanged id fromStatus status] ∧
      (status = .completed → Completable db id) := by
  refine .bind requirePlan_ok fun plan hPlan => .ite (fun _ => .pure fun h => absurd rfl h) fun hOther => ?_
  dsimp only
  refine .ite (fun _ => .andThen fun _ hFinished => .pure fun _ => ⟨plan.status, rfl, ?_⟩) fun hIncomplete =>
    .pure fun _ => ⟨plan.status, rfl, fun hIs => absurd hIs hIncomplete⟩
  rintro rfl
  exact ⟨⟨plan, hPlan, hOther⟩, hFinished⟩

end PlanCommands

namespace Handler

variable {config : Config} {env : Env} {caller : Caller} {command : Command} {actor claimed : Actor} {db : Database}
  {batch : List Event} {relations : Relations} {trail : GateStage.Trail} {persisted : List EventEnvelope}
  {appended : Database}

/-- The events that persisting is asked to append. -/
abbrev offered (env : Env) (caller : Caller) (command : Command) (claimed : Actor) (batch : List Event)
    (trail : GateStage.Trail) : List EventEnvelope :=
  withProvenance command (envelopesOf (env.part 2) (attributedActor caller command claimed) (trail.surround batch))

theorem Accepted.of_plan {command : PlanCommand}
    (hSource : resolveSource config db ((env.part 0).part 0) (attributedActor caller (.plan command) claimed)
      (.plan command) = .ok ⟨.plan command, [], []⟩)
    (h : Accepted config env caller (.plan command) claimed db batch relations trail persisted appended) :
    ∃ built, PlanCommands.buildEvents config db (builderEnv env) (attributedActor caller (.plan command) claimed)
        command = .ok built ∧ batch = built.map (authenticated caller) ++
        (Reconciliation.planReconciliations db (built.map (authenticated caller))).map .plan := by
  obtain ⟨warnings, hDraft⟩ := h.built
  obtain ⟨built, hBuilt, hBatch⟩ := draft_of_unsourced hSource hDraft
  exact ⟨built, (Stateful.lift_eq.mp hBuilt).1, hBatch⟩

variable (h : Accepted config env caller command claimed db batch relations trail persisted appended)

include h in
/-- A batch starts with what a builder recorded first. -/
theorem Accepted.head {built : List Event} (hBatch : batch = built.map (authenticated caller) ++
      (Reconciliation.planReconciliations db (built.map (authenticated caller))).map .plan) : built ≠ [] := by
  rintro rfl
  refine h.nonempty (hBatch.trans ?_)
  rw [map_nil, nil_append, Reconciliation.planReconciliations, Reconciliation.drain_nil rfl]
  rfl

theorem terminalPlan_surround {now : Timestamp} {event : PlanEvent} {rest : List Event}
    {ending : PlanId × RunStatus × String × Timestamp}
    (hEnds : AgentClaimRepo.terminalPlanOf now (.plan event) = some ending) :
    (trail.surround (.plan event :: rest)).findSome? (AgentClaimRepo.terminalPlanOf now) = some ending := by
  have hAudit : (trail.audit.map Event.audit).findSome? (AgentClaimRepo.terminalPlanOf now) = none := by
    rw [findSome?_eq_none_iff]
    intro event hMem
    obtain ⟨audit, _, rfl⟩ := mem_map.mp hMem
    rfl
  rw [GateStage.Trail.surround, append_assoc, findSome?_append, hAudit, Option.none_or, cons_append,
    findSome?_cons, hEnds]

include h in
theorem Accepted.terminalPlan_command
    (hEnds : endsPlan command = true) {now : Timestamp} {planId : PlanId} {status : RunStatus} {reason : String}
    {endedAt : Timestamp}
    (hPlan : terminalPlan now (offered env caller command claimed batch trail) = some (planId, status, reason, endedAt)) :
    command.endedPlan = some planId ∧ ((status = .completed ∧ Completable db planId ∧
      ∃ force overrideReason, command = .plan (.setPlanStatus planId .completed force overrideReason)) ∨
    status = .aborted) := by
  have hOffered : ∀ {event : PlanEvent} {rest : List Event} {ending}, withProvenance command = id →
      batch = .plan event :: rest → AgentClaimRepo.terminalPlanOf now (.plan event) = some ending →
      ending = (planId, status, reason, endedAt) := by
    intro event rest ending hSame hBatch hIs
    rw [AgentClaimRepo.terminalPlan_eq, offered, hSame, id_eq, envelopesOf_payload, hBatch,
      terminalPlan_surround hIs] at hPlan
    exact Option.some.inj hPlan
  cases command with
  | plan command =>
    cases command with
    | archivePlan id =>
      obtain ⟨built, hBuilt, hBatch⟩ := h.of_plan rfl
      obtain ⟨rest, rfl⟩ := PlanCommands.archivePlan_head _ hBuilt (h.head hBatch)
      cases hOffered rfl hBatch rfl
      exact ⟨rfl, .inr rfl⟩
    | deletePlan id =>
      obtain ⟨built, hBuilt, hBatch⟩ := h.of_plan rfl
      obtain ⟨rest, rfl⟩ := PlanCommands.deletePlan_head _ hBuilt
      cases hOffered rfl hBatch rfl
      exact ⟨rfl, .inr rfl⟩
    | setPlanStatus id toStatus force overrideReason =>
      obtain ⟨built, hBuilt, hBatch⟩ := h.of_plan rfl
      obtain ⟨events, hEvents, rfl⟩ := map_eq_ok.mp hBuilt
      have hSome : events ≠ [] := fun hNone => h.head hBatch (congrArg (List.map Event.plan) hNone)
      obtain ⟨fromStatus, rfl, hCompletable⟩ := PlanCommands.setPlanStatus_head _ hEvents hSome
      cases toStatus with
      | completed =>
        cases hOffered rfl hBatch rfl
        exact ⟨rfl, .inl ⟨rfl, hCompletable rfl, force, overrideReason, rfl⟩⟩
      | abandoned =>
        cases hOffered rfl hBatch rfl
        exact ⟨rfl, .inr rfl⟩
      | draft | active => cases hEnds
    | _ => cases hEnds
  | _ => cases hEnds

theorem offered_payloads {event : RunEvent}
    (h : .run event ∈ (offered env caller command claimed batch trail).map EventEnvelope.payload) : .run event ∈ batch := by
  obtain ⟨f, hRelinking, hPayloads⟩ := withProvenance_payloads command (envelopesOf (env.part 2)
    (attributedActor caller command claimed) (trail.surround batch))
  rw [hPayloads, envelopesOf_payload] at h
  obtain ⟨original, hMem, hIs⟩ := mem_map.mp h
  have hSame : original = .run event := by
    rcases hRelinking with rfl | ⟨origin, rfl⟩
    · exact hIs
    · cases original with
      | task original => cases original <;> cases hIs
      | _ => exact hIs
  rw [hSame, GateStage.Trail.surround] at hMem
  simpa using hMem

def EndsRunAs (command : Command) (id : RunId) (status : RunStatus) (reason : String) (events : List Event) : Prop :=
  (status = .failed ∧ command = .run (.failRun id reason) ∧ ∃ instant, .run (.runFailed id reason instant) ∈ events) ∨
    (status = .aborted ∧ command = .run (.abortRun id reason) ∧ ∃ instant, .run (.runAborted id reason instant) ∈ events)

variable {status : RunStatus} {reason : String}

theorem EndsRunAs.names {id other : RunId} {text : String} {events : List Event}
    (h : EndsRunAs command id status reason events)
    (hCommand : command = .run (.failRun other text) ∨ command = .run (.abortRun other text)) : id = other := by
  rcases h with ⟨_, rfl, _⟩ | ⟨_, rfl, _⟩
  · rcases hCommand with hIs | hIs <;> cases hIs
    rfl
  · rcases hCommand with hIs | hIs <;> cases hIs
    rfl

include h in
theorem Accepted.endsRunAs {id : RunId} {instant : Timestamp}
    (hCommand : (∃ id reason, command = .run (.failRun id reason)) ∨ ∃ id reason, command = .run (.abortRun id reason))
    (hTerminal : AgentClaimRepo.terminalRun (offered env caller command claimed batch trail) =
      some (id, status, instant, reason)) :
    EndsRunAs command id status reason ((offered env caller command claimed batch trail).map EventEnvelope.payload) := by
  rcases AgentClaimRepo.terminalRun_cases hTerminal with ⟨rfl, hMem⟩ | ⟨rfl, hMem⟩
  · have hIs : command = .run (.failRun id reason) := h.warranted (offered_payloads hMem) rfl
    exact .inl ⟨rfl, hIs, instant, hMem⟩
  · have hIs : command = .run (.abortRun id reason) ∨ _ := h.warranted (offered_payloads hMem) rfl
    rcases hIs with hIs | ⟨_, planId, rfl | rfl⟩
    · exact .inr ⟨rfl, hIs, instant, hMem⟩
    · rcases hCommand with ⟨_, _, hIs⟩ | ⟨_, _, hIs⟩ <;> cases hIs
    · rcases hCommand with ⟨_, _, hIs⟩ | ⟨_, _, hIs⟩ <;> cases hIs

include h in
theorem Accepted.run_terminated {agentId : AgentId} (hAgent : caller.agentId = some agentId)
    (hCommand : (∃ id reason, command = .run (.failRun id reason)) ∨ ∃ id reason, command = .run (.abortRun id reason)) :
    AgentClaimRepo.StoredWithReleases (env.part 3) (attributedActor caller command claimed)
        (offered env caller command claimed batch trail) persisted appended.agentClaims ∧
      ∃ run status reason, EndsRunAs command run.id status reason
          ((offered env caller command claimed batch trail).map EventEnvelope.payload) ∧
        AgentClaimRepo.RunTerminated { db with relations := relations } agentId caller.isAdmin run status reason
          appended := by
  have hStored : AgentClaimRepo.recordRunTerminal { db with relations := relations } (env.part 3)
      (attributedActor caller command claimed) agentId caller.isAdmin (offered env caller command claimed batch trail) =
      .ok (persisted, appended) := by
    have hStored := h.stored
    unfold persist at hStored
    rw [hAgent] at hStored
    rcases hCommand with ⟨_, _, rfl⟩ | ⟨_, _, rfl⟩ <;> exact hStored
  obtain ⟨run, status, instant, reason, hTerminal, hEnded⟩ := AgentClaimRepo.recordRunTerminal_spec hStored
  exact ⟨AgentClaimRepo.recordRunTerminal_releases hStored, run, status, reason, h.endsRunAs hCommand hTerminal, hEnded⟩

structure EndsRun (db : Database) (caller : Caller) (command : Command) (id : RunId) (appended : Database) : Prop where
  active : ActiveRun db id
  ended : ∃ status reason, status ≠ .active ∧ appended.runEnding id = some (status, some reason) ∧
    (status = .completed → ∃ planId force overrideReason run,
      command = .plan (.setPlanStatus planId .completed force overrideReason) ∧ Completable db planId ∧
        db.runs.find? id = some run ∧ run.planId = planId ∧
        ownsEveryRun db caller.agentId caller.isAdmin (AgentClaimRepo.activeRuns db planId) = true)

include h in
theorem Accepted.stored_runEnding (id : RunId) :
    appended.runEnding id = db.runEnding id ∨ EndsRun db caller command id appended := by
  have hSame : ∀ {before : Database} {envelopes : List EventEnvelope},
      appendBatch before envelopes = .ok (persisted, appended) → appended.runs = before.runs := by
    intro before envelopes hAppend
    obtain ⟨_, _, rfl⟩ := (appendBatch_ok hAppend).2.2
    rfl
  have hKept : appended.runs = db.runs → appended.runEnding id = db.runEnding id := by
    intro hRuns
    rw [Database.runEnding, hRuns]
    rfl
  have hTerminal : ∀ {requester}, AgentClaimRepo.recordRunTerminal { db with relations := relations } (env.part 3)
      (attributedActor caller command claimed) requester caller.isAdmin (offered env caller command claimed batch trail) =
      .ok (persisted, appended) → appended.runEnding id = db.runEnding id ∨ EndsRun db caller command id appended := by
    intro requester hRecorded
    obtain ⟨run, status, instant, reason, hTerminal, hEnded⟩ := AgentClaimRepo.recordRunTerminal_spec hRecorded
    by_cases hIs : id = run.id
    · subst hIs
      have hStatus : status = .failed ∨ status = .aborted :=
        (AgentClaimRepo.terminalRun_cases hTerminal).imp And.left And.left
      refine .inr ⟨⟨run, hEnded.stored, hEnded.active⟩, status, reason, ?_, hEnded.ending, ?_⟩
      · rcases hStatus with rfl | rfl <;> decide
      · rcases hStatus with rfl | rfl <;> rintro ⟨⟩
    · exact .inl (hEnded.others id hIs)
  have hStored := h.stored
  unfold persist at hStored
  split at hStored
  · unfold AgentClaimRepo.recordRunStarted at hStored
    dsimp only at hStored
    split at hStored
    · cases hStored
    · split at hStored
      · cases hStored
      · have hRuns := hSame hStored
        exact .inl (hKept hRuns)
  · exact hTerminal hStored
  · exact hTerminal hStored
  · split at hStored
    · unfold AgentClaimRepo.recordTaskLifecycle at hStored
      have hRuns := hSame hStored
      exact .inl (hKept hRuns)
    · split at hStored
      · rename_i hEnds
        obtain ⟨planId, status, reason, endedAt, hPlan, hEnded⟩ := AgentClaimRepo.recordPlanTerminal_spec hStored
        rcases hEnded.endings id with hOther | ⟨⟨run, hRun, rfl⟩, hEnding⟩
        · exact .inl hOther
        · obtain ⟨hFound, hIn, hActive⟩ := AgentClaimRepo.mem_activeRuns.mp hRun
          refine .inr ⟨⟨run, hFound, hActive⟩, status, reason, ?_, hEnding, ?_⟩
          · rcases (h.terminalPlan_command hEnds hPlan).2 with ⟨rfl, _⟩ | rfl <;> decide
          · rintro rfl
            rcases (h.terminalPlan_command hEnds hPlan).2 with ⟨_, hCompletable, force, overrideReason, hCommand⟩ | hAborted
            · exact ⟨planId, force, overrideReason, run, hCommand, hCompletable, hFound, hIn, hEnded.permitted⟩
            · cases hAborted
      · have hRuns := hSame hStored
        exact .inl (hKept hRuns)

include h in
theorem Accepted.stored_runSteps : appended.runSteps = db.runSteps := by
  obtain ⟨_, _, _, _, _, rfl⟩ := h.frame
  rfl

end Handler
end Daruma
