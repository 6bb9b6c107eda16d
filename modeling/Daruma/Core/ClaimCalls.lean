import Daruma.Core.TaskCleanup
import Daruma.Storage.ClaimExclusion

/-! What every call of the server does to claims. The calls on claims grant one, or
remove some of one agent; a command may remove any, and grants none that another agent
has. -/
namespace Daruma

open KeyedTable

def SameClaims (before after : Database) : Prop := ∀ claim, claim ∈ after.agentClaims ↔ claim ∈ before.agentClaims

theorem AutoAppend.Holding.sameClaims {before after : Database} (h : AutoAppend.Holding before after) :
    SameClaims before after :=
  fun claim => ⟨h.claims claim, fun hClaim => h.claimsKept claim hClaim not_false⟩

namespace AgentClaimRepo

variable {db db' : Database} {env : Env} {actor : Actor} {agentId : AgentId} {taskId : TaskId} {claimId : ClaimId}
  {expiresAt : Timestamp} {run : Option (RunId × PlanId)}

theorem compareAndSet_bound {claims claims' : AgentClaims} {now : Timestamp} {row : AgentClaim}
    (hRun : row.runId.isNone = false) (h : compareAndSet claims now row = .ok (some claims')) :
    claims' = claims.upsert row := by
  unfold compareAndSet at h
  split at h
  · cases h
  · split at h
    · cases h
    · split at h
      · cases h
        rfl
      · rw [hRun, Bool.and_false] at h
        cases h
        rfl

structure Granted (db : Database) (row : AgentClaim) (db' : Database) : Prop where
  claims : ∀ claim, claim ∈ db'.agentClaims ↔ claim = row ∨ (claim ∈ db.agentClaims ∧ claim.key ≠ row.key)
  tasks : db'.tasks = db.tasks
  isOpen : ∃ status, db.statusOf row.taskId = some status ∧ status.isTerminal = false

theorem tryAcquireBoundRecorded_cases {outcome : RecordedClaimOutcome}
    (h : tryAcquireBoundRecorded db env actor agentId taskId claimId expiresAt run = .ok (outcome, db')) :
    (∃ event runId, outcome = .acquired expiresAt claimId event ∧
      (∀ bound, run = some bound → runId = some bound.1) ∧
      Granted db ⟨agentId, taskId, env.now, expiresAt, runId, claimId⟩ db') ∨
    (∃ holder until_, outcome = .busy holder until_) ∧ db' = db := by
  unfold tryAcquireBoundRecorded at h
  split at h
  · cases h
  rename_i task hFound
  split at h
  · cases h
  rename_i hOpen
  split at h
  · cases h
  dsimp only at h
  split at h
  · cases h
  · rename_i claims hSet
    split at h
    · cases h
    · rename_i stored appended hAppend
      cases h
      have hTasks : db'.tasks = db.tasks := by
        obtain ⟨_, _, rfl⟩ := (appendOn_ok hAppend).2.2.2.2
        rfl
      have hStatus : ∃ status, db.statusOf taskId = some status ∧ status.isTerminal = false :=
        ⟨task.status, by rw [Database.statusOf, hFound]; rfl, Bool.eq_false_iff.mpr hOpen⟩
      have hClaims := appendOn_agentClaims hAppend
      dsimp only at hClaims
      obtain ⟨_, runId, hUpsert⟩ := compareAndSet_ok hSet
      refine .inl ⟨stored, runId, rfl, ?_, fun claim => ?_, hTasks, hStatus⟩
      · rintro ⟨boundRun, boundPlan⟩ rfl
        have hBound := compareAndSet_bound rfl hSet
        rw [hUpsert] at hBound
        have hRow : (⟨agentId, taskId, env.now, expiresAt, runId, claimId⟩ : AgentClaim) ∈
            db.agentClaims.upsert ⟨agentId, taskId, env.now, expiresAt, some boundRun, claimId⟩ :=
          hBound ▸ mem_upsert.mpr (.inl rfl)
        rcases mem_upsert.mp hRow with hIs | ⟨_, hOther⟩
        · exact congrArg AgentClaim.runId hIs
        · exact absurd rfl hOther
      · rw [hClaims, hUpsert, mem_upsert]
  · refine .inr ?_
    split at h
    · cases h
      exact ⟨⟨_, _, rfl⟩, rfl⟩
    · cases h
      exact ⟨⟨_, _, rfl⟩, rfl⟩

theorem releaseRecorded_claims {event : Option EventEnvelope}
    (h : releaseRecorded db env actor agentId taskId claimId = .ok (event, db')) (claim : AgentClaim) :
    claim ∈ db'.agentClaims ↔ claim ∈ db.agentClaims ∧ ¬(claim.key = (agentId, taskId) ∧ claim.claimId = claimId) := by
  unfold releaseRecorded at h
  dsimp only at h
  split at h
  · rename_i hNone
    cases h
    refine ⟨fun hClaim => ⟨hClaim, fun ⟨hKey, hId⟩ => ?_⟩, And.left⟩
    rw [Bool.not_eq_true'] at hNone
    refine Bool.eq_false_iff.mp hNone (List.any_eq_true.mpr ⟨claim, hClaim, ?_⟩)
    obtain ⟨hAgent, hTask⟩ := Prod.mk.inj hKey
    simp [hAgent, hTask, hId]
  · split at h
    · cases h
    · rename_i hAppend
      cases h
      rw [appendOn_agentClaims hAppend]
      exact mem_deleteExact

theorem releaseRecorded_new (hNew : db.events.find? (env.fresh 0) = none) :
    ∃ event db', releaseRecorded db env actor agentId taskId claimId = .ok (event, db') := by
  unfold releaseRecorded
  dsimp only
  split
  · exact ⟨_, _, rfl⟩
  · obtain ⟨stored, appended, hAppend⟩ : ∃ stored appended, appendOn
        { db with agentClaims := deleteExact db.agentClaims agentId taskId claimId }
        (EventEnvelope.new (env.fresh 0) env.now actor (.claim (.agentReleased agentId taskId (some claimId)))) =
        .ok (stored, appended) := appendOn_new rfl hNew
    rw [hAppend]
    exact ⟨_, _, rfl⟩

end AgentClaimRepo

open AgentClaimRepo (Exclusive ClaimEffect)

/-- Claims that are exclusive at an instant stay so. -/
def KeepsExclusive (clock : Timestamp) (before after : Database) : Prop :=
  Exclusive ⟨before, clock⟩ → Exclusive ⟨after, clock⟩

section

variable {clock now : Timestamp} {before after : Database}

theorem KeepsExclusive.of_removed (h : ∀ row ∈ after.agentClaims, row ∈ before.agentClaims) :
    KeepsExclusive clock before after :=
  fun hBefore left hLeft right hRight => hBefore left (h left hLeft) right (h right hRight)

theorem KeepsExclusive.of_effect (hNow : now ≤ clock) (h : ClaimEffect now before.agentClaims after.agentClaims) :
    KeepsExclusive clock before after :=
  fun hBefore => Exclusive.of_effect hNow h hBefore

theorem SameClaims.keepsExclusive (h : SameClaims before after) : KeepsExclusive clock before after :=
  .of_removed fun row => (h row).mp

theorem KeepsExclusive.trans {last : Database} (h : KeepsExclusive clock before after)
    (h' : KeepsExclusive clock after last) : KeepsExclusive clock before last :=
  fun hBefore => h' (h hBefore)

end

namespace Projections

variable {env : Env} {envelope : EventEnvelope} {db db' : Database} {clock : Timestamp}

theorem projectors_keepsExclusive (hNow : env.now ≤ clock) {step : Database → Result Database}
    (hStep : step ∈ projectors env envelope) (h : step db = .ok db') : KeepsExclusive clock db db' := by
  obtain ⟨_, hWrote⟩ := exists_wrote hStep h
  cases hWrote with
  | claims hApplied => exact .of_effect hNow (AgentClaimRepo.applyEvent_effect hApplied)
  | _ => exact fun hBefore => hBefore

variable {envelopes : List EventEnvelope}

theorem applyEvents_keepsExclusive (hNow : env.now ≤ clock)
    {outcome : Except CoreError Unit} (h : applyEvents env envelopes db = (outcome, db')) :
    KeepsExclusive clock db db' := by
  refine Stateful.inTurn_rel (fun _ hBefore => hBefore) (fun _ _ _ => .trans) (fun step hStep before after hTaken => ?_) h
  obtain ⟨envelope, _, hProjector⟩ := List.mem_flatMap.mp hStep
  have hPart : (env.part envelope.seq).now ≤ clock := hNow
  exact projectors_keepsExclusive hPart hProjector hTaken

end Projections

namespace Handler

variable {config : Config} {env : Env} {caller : Caller} {command : Command} {actor : Actor} {db db' : Database}
  {clock : Timestamp}

theorem persist_removed {persisted : List EventEnvelope}
    (h : persist db env caller actor command envelopes = .ok (persisted, db')) :
    ∀ row ∈ db'.agentClaims, row ∈ db.agentClaims := by
  have hAppended : ∀ {before after : Database}, appendBatch before envelopes = .ok (persisted, after) →
      before.agentClaims = db.agentClaims → ∀ row ∈ after.agentClaims, row ∈ db.agentClaims := by
    intro before after hAppend hSame row hRow
    rw [AgentClaimRepo.appendBatch_agentClaims hAppend, hSame] at hRow
    exact hRow
  unfold persist at h
  split at h
  · unfold AgentClaimRepo.recordRunStarted at h
    dsimp only at h
    split at h
    · cases h
    · split at h
      · cases h
      · exact hAppended h rfl
  · exact (AgentClaimRepo.recordRunTerminal_removal h).kept
  · exact (AgentClaimRepo.recordRunTerminal_removal h).kept
  · split at h
    · exact (AgentClaimRepo.recordTaskLifecycle_removal h).kept
    · split at h
      · exact (AgentClaimRepo.recordPlanTerminal_removal h).kept
      · exact hAppended h rfl

theorem handle_keepsExclusive (hNow : env.now ≤ clock) :
    KeepsExclusive clock db (handleWithRunOwner config env caller command actor db).2 := by
  refine handle_rule (fun hAudited => ?_) (fun {_ _ _ _ appended _ _} hAccepted hApplied => ?_)
    fun ⟨_, _, _, _, _, _, hLines, _⟩ hApplied => ?_
  · obtain ⟨_, _, _, _, _, _, rfl⟩ := hAudited
    exact fun hBefore => hBefore
  · have hRemoved := persist_removed hAccepted.stored
    have hAppended : KeepsExclusive clock db appended := .of_removed hRemoved
    exact hAppended.trans (Projections.applyEvents_keepsExclusive (show (env.part 4).now ≤ clock from hNow) hApplied)
  · rw [hLines]
    exact hApplied

end Handler

def Call.env : Call → Env
  | .command env .. | .acquireClaim env .. | .releaseClaim env .. | .sweepClaims env _ | .signal env _ => env

namespace Server

variable {config : Config} {db : Database} {env : Env} {actor : Actor} {agentId : AgentId} {taskId : TaskId}
  {clock : Timestamp}

theorem publishRecordedClaimEvents_sameClaims {events : List EventEnvelope} :
    SameClaims db (publishRecordedClaimEvents config env db events) :=
  (AutoAppend.autoAppendLogs_holding { db with activity := events.foldl ActivityRepo.applyEvent db.activity } events).sameClaims

/-- What a watchdog puts on record releases nothing. -/
theorem signal_holding (signal : WatchdogSignal) :
    AutoAppend.Holding db (AutoAppend.persistSignalEvent env .anyUser (signal.event env.now) db).2 := by
  obtain ⟨_, _, _, _, _, _, _, hFrame, _⟩ := @persistSignalEvent_frame env db .anyUser _ (.inr ⟨env.now, signal, rfl⟩)
  rw [hFrame]
  exact OnlyFrees.of_eq rfl rfl

theorem serve_keepsExclusive (call : Call) (hNow : call.env.now ≤ clock) :
    KeepsExclusive clock db (serve config db call) := by
  cases call with
  | command env caller command actor => exact Handler.handle_keepsExclusive hNow
  | acquireClaim env actor agentId taskId ttl run =>
    change KeepsExclusive clock db (tryAcquireClaim config db env actor agentId taskId ttl run)
    unfold tryAcquireClaim
    split
    · rename_i hAcquired
      exact (KeepsExclusive.of_effect hNow (.grant (AgentClaimRepo.tryAcquireBoundRecorded_effect hAcquired))).trans
        publishRecordedClaimEvents_sameClaims.keepsExclusive
    · rename_i hBusy
      exact .of_effect hNow (.grant (AgentClaimRepo.tryAcquireBoundRecorded_effect hBusy))
    · exact fun hBefore => hBefore
  | releaseClaim env actor agentId taskId claimId =>
    change KeepsExclusive clock db (releaseClaim config db env actor agentId taskId claimId)
    unfold releaseClaim
    split
    · rename_i hReleased
      exact (KeepsExclusive.of_effect hNow (AgentClaimRepo.releaseRecorded_effect hReleased)).trans
        publishRecordedClaimEvents_sameClaims.keepsExclusive
    · exact fun hBefore => hBefore
  | sweepClaims env actor =>
    change KeepsExclusive clock db (sweepExpiredClaims config db env actor)
    unfold sweepExpiredClaims
    split
    · rename_i hSwept
      let sweep := AgentClaimRepo.ClaimCall.sweepExpiredRecorded (env.part 0) actor
        (AgentClaimRepo.selectExpired db.agentClaims env.now)
      have hGuarded : ¬sweep.Unguarded := not_false
      have hRemoved := AgentClaimRepo.ClaimCall.perform_effect hGuarded (congrArg (Except.map Prod.snd) hSwept)
      exact (KeepsExclusive.of_effect hNow hRemoved).trans publishRecordedClaimEvents_sameClaims.keepsExclusive
    · exact fun hBefore => hBefore
  | signal env signal => exact (signal_holding signal).sameClaims.keepsExclusive

theorem run_exclusive {calls : List Call} (hNow : ∀ call ∈ calls, call.env.now ≤ clock) :
    Exclusive ⟨run config calls, clock⟩ := by
  have hFold : ∀ (list : List Call) (db : Database), (∀ call ∈ list, call.env.now ≤ clock) → Exclusive ⟨db, clock⟩ →
      Exclusive ⟨list.foldl (serve config) db, clock⟩ := by
    intro list
    induction list with
    | nil => exact fun _ _ h => h
    | cons call rest ih =>
      intro db hAll h
      obtain ⟨hFirst, hRest⟩ := List.forall_mem_cons.mp hAll
      exact ih _ hRest (serve_keepsExclusive call hFirst h)
  exact hFold calls Database.empty hNow fun left hLeft => absurd hLeft (not_mem_empty left)

structure LeavesAlone (agentId : AgentId) (clock : Timestamp) (before after : Database) : Prop where
  claims : ∀ claim : AgentClaim, claim.agentId = agentId → claim.live clock = true →
    (claim ∈ after.agentClaims ↔ claim ∈ before.agentClaims)
  statuses : ∀ claim ∈ before.agentClaims, claim.agentId = agentId → claim.live clock = true →
    after.statusOf claim.taskId = before.statusOf claim.taskId

variable {claimId : ClaimId} {ttl : Duration}

theorem acquireClaim_grants {bound : RunId × PlanId} {expiresAt : Timestamp}
    {event : EventEnvelope} {stored : Database}
    (h : AgentClaimRepo.tryAcquireBoundRecorded db (env.part 0) actor agentId taskId (env.fresh 0) (env.now + ttl)
      (some bound) = .ok (.acquired expiresAt claimId event, stored)) :
    (∀ claim, claim ∈ (tryAcquireClaim config db env actor agentId taskId ttl (some bound)).agentClaims ↔
      claim = ⟨agentId, taskId, env.now, expiresAt, some bound.1, claimId⟩ ∨
        (claim ∈ db.agentClaims ∧ claim.key ≠ (agentId, taskId))) ∧
    ∃ status, (tryAcquireClaim config db env actor agentId taskId ttl (some bound)).statusOf taskId = some status ∧
      status.isTerminal = false := by
  have hServed : tryAcquireClaim config db env actor agentId taskId ttl (some bound) =
      publishRecordedClaimEvents config (env.part 1) stored [event] := by
    unfold tryAcquireClaim
    rw [h]
  rcases AgentClaimRepo.tryAcquireBoundRecorded_cases h with ⟨_, runId, hOutcome, hRun, hGranted⟩ | ⟨⟨_, _, hBusy⟩, _⟩
  · cases hOutcome
    obtain rfl := hRun bound rfl
    refine ⟨fun claim => ?_, ?_⟩
    · rw [hServed, publishRecordedClaimEvents_sameClaims claim]
      exact hGranted.claims claim
    · obtain ⟨status, hStatus, hOpen⟩ := hGranted.isOpen
      have hSame : Projections.SameLifecycles db
          (serve config db (.acquireClaim env actor agentId taskId ttl (some bound))) := serve_lifecycles rfl db
      refine ⟨status, ?_, hOpen⟩
      change (serve config db (.acquireClaim env actor agentId taskId ttl (some bound))).statusOf taskId = _
      rw [Database.statusOf_eq, hSame taskId, ← Database.statusOf_eq]
      exact hStatus
  · cases hBusy

theorem acquireClaim_busy {run : Option (RunId × PlanId)}
    (h : ∀ expiresAt claimId event stored, AgentClaimRepo.tryAcquireBoundRecorded db (env.part 0) actor agentId taskId
      (env.fresh 0) (env.now + ttl) run ≠ .ok (.acquired expiresAt claimId event, stored)) :
    SameClaims db (tryAcquireClaim config db env actor agentId taskId ttl run) := by
  intro claim
  unfold tryAcquireClaim
  split
  · rename_i hAcquired
    exact absurd hAcquired (h _ _ _ _)
  · rename_i hBusy
    rcases AgentClaimRepo.tryAcquireBoundRecorded_cases hBusy with ⟨_, _, hAcquired, _⟩ | ⟨_, rfl⟩
    · cases hAcquired
    · exact Iff.rfl
  · exact Iff.rfl

theorem releaseClaim_claims (hNew : db.events.find? ((env.part 0).fresh 0) = none)
    (claim : AgentClaim) : claim ∈ (releaseClaim config db env actor agentId taskId claimId).agentClaims ↔
      claim ∈ db.agentClaims ∧ ¬(claim.key = (agentId, taskId) ∧ claim.claimId = claimId) := by
  obtain ⟨event, released, hReleased⟩ := @AgentClaimRepo.releaseRecorded_new db (env.part 0) actor agentId taskId claimId hNew
  unfold releaseClaim
  rw [hReleased]
  exact (publishRecordedClaimEvents_sameClaims claim).trans (AgentClaimRepo.releaseRecorded_claims hReleased claim)

end Server
end Daruma
