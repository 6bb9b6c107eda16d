import Daruma.Core.Runs
import Daruma.Core.StatusWrites

/-! What the calls of the server that are not commands leave alone: operations on
claims write claims and the log, and watchdogs put single events on record. -/
namespace Daruma

open List

namespace AgentClaimRepo

/-- Claims changed, with the log, the feed and the logs in documents. -/
def ClaimsOnly (before after : Database) : Prop :=
  ∃ agentClaims, WritesLog (fun event => event.IsLine ∨ ∃ claim, event = .claim claim)
    { before with agentClaims := agentClaims } after

variable {db db' : Database} {env : Env} {actor : Actor} {agentId : AgentId} {taskId : TaskId}

theorem ClaimsOnly.refl (db : Database) : ClaimsOnly db db := ⟨db.agentClaims, .unlogged rfl⟩

theorem claimsOnly_of_append {claims : AgentClaims} {later : List EventEnvelope}
    (hSame : Database.SameTables { db with agentClaims := claims } db') (hLog : db'.events.rows = db.events.rows ++ later)
    (hClaims : ∀ envelope ∈ later, ∃ claim, envelope.payload = .claim claim) : ClaimsOnly db db' := by
  obtain ⟨events, latestSeq, rfl⟩ := hSame
  exact ⟨claims, events, latestSeq, db.activity, db.documentVersions, later, [], rfl, hLog,
    fun envelope hMem => .inr (hClaims envelope hMem), forall_mem_nil _⟩

theorem claimsOnly_of_appendOn {claims : AgentClaims} {event : ClaimEvent} {stored : EventEnvelope}
    (h : appendOn { db with agentClaims := claims } (EventEnvelope.new (env.fresh 0) env.now actor (.claim event)) =
      .ok (stored, db')) : ClaimsOnly db db' := by
  obtain ⟨rfl, _, hLog, _, hSame⟩ := appendOn_ok h
  exact claimsOnly_of_append hSame hLog (forall_mem_singleton.mpr ⟨event, rfl⟩)

variable {claimId : ClaimId}

theorem tryAcquireBoundRecorded_claimsOnly {expiresAt : Timestamp} {run : Option (RunId × PlanId)} {outcome : RecordedClaimOutcome}
    (h : tryAcquireBoundRecorded db env actor agentId taskId claimId expiresAt run = .ok (outcome, db')) :
    ClaimsOnly db db' := by
  unfold tryAcquireBoundRecorded at h
  split at h
  · cases h
  split at h
  · cases h
  split at h
  · cases h
  dsimp only at h
  split at h
  · cases h
  · split at h
    · cases h
    · rename_i stored last hAppend
      cases h
      exact claimsOnly_of_appendOn hAppend
  · split at h
    · cases h
      exact .refl db
    · cases h
      exact .refl db

theorem releaseRecorded_claimsOnly {stored : Option EventEnvelope}
    (h : releaseRecorded db env actor agentId taskId claimId = .ok (stored, db')) : ClaimsOnly db db' := by
  unfold releaseRecorded at h
  dsimp only at h
  split at h
  · cases h
    exact .refl db
  · split at h
    · cases h
    · rename_i stored last hAppend
      cases h
      exact claimsOnly_of_appendOn hAppend

theorem sweepExpiredRecorded_claimsOnly {selected : List AgentClaim} {stored : List EventEnvelope}
    (h : sweepExpiredRecorded db env actor selected = .ok (stored, db')) : ClaimsOnly db db' := by
  obtain ⟨hPayloads, hLog, hSame⟩ := appendBatch_ok h
  refine claimsOnly_of_append hSame hLog fun envelope hMem => ?_
  have hPayload := hPayloads ▸ mem_map_of_mem hMem
  obtain ⟨event, hEvent, hIs⟩ := mem_map.mp hPayload
  obtain ⟨n, _, rfl⟩ := mem_mapIdx.mp hEvent
  exact ⟨_, hIs.symm⟩

end AgentClaimRepo

namespace Server

open AgentClaimRepo (ClaimsOnly)

/-- An event that the server puts on record by itself: a line of a log or a
signal of a watchdog. -/
def IsSignal (event : Event) : Prop :=
  (∃ documentId line instant, event = .document (.documentContentAppended documentId line instant)) ∨
    ∃ now signal, event = WatchdogSignal.event now signal

variable {config : Config} {env : Env} {call : Call} {db db' : Database}

def Call.isCommand : Call → Bool
  | .command .. => true
  | _ => false

def Call.isSignal : Call → Bool
  | .signal .. => true
  | _ => false

theorem publishRecordedClaimEvents_claimsOnly {events : List EventEnvelope} (h : ClaimsOnly db db') :
    ClaimsOnly db (publishRecordedClaimEvents config env db' events) := by
  obtain ⟨agentClaims, hWrites⟩ := h
  exact ⟨agentClaims, hWrites.trans (.trans (.unlogged rfl)
    ((AutoAppend.autoAppendLogs_lines events _).mono fun _ hLine => .inl hLine))⟩

theorem serve_claimsOnly (hCommand : Call.isCommand call = false) (hSignal : Call.isSignal call = false) :
    ClaimsOnly db (serve config db call) := by
  cases call with
  | command env caller command actor => cases hCommand
  | acquireClaim env actor agentId taskId ttl run =>
    change ClaimsOnly db (tryAcquireClaim config db env actor agentId taskId ttl run)
    unfold tryAcquireClaim
    split
    · rename_i hAcquired
      exact publishRecordedClaimEvents_claimsOnly (AgentClaimRepo.tryAcquireBoundRecorded_claimsOnly hAcquired)
    · rename_i hBusy
      exact AgentClaimRepo.tryAcquireBoundRecorded_claimsOnly hBusy
    · exact .refl db
  | releaseClaim env actor agentId taskId claimId =>
    change ClaimsOnly db (releaseClaim config db env actor agentId taskId claimId)
    unfold releaseClaim
    split
    · rename_i hReleased
      exact publishRecordedClaimEvents_claimsOnly (AgentClaimRepo.releaseRecorded_claimsOnly hReleased)
    · exact .refl db
  | sweepClaims env actor =>
    change ClaimsOnly db (sweepExpiredClaims config db env actor)
    unfold sweepExpiredClaims
    split
    · rename_i hSwept
      exact publishRecordedClaimEvents_claimsOnly (AgentClaimRepo.sweepExpiredRecorded_claimsOnly hSwept)
    · exact .refl db
  | signal env signal => cases hSignal

theorem serve_claims {post : Database → Prop} (hCommand : Call.isCommand call = false)
    (hSignal : Call.isSignal call = false) (h : ∀ {after}, ClaimsOnly db after → post after) : post (serve config db call) :=
  h (serve_claimsOnly hCommand hSignal)

def WritesRuns (before after : Database) : Prop := ∃ runs, WritesLog IsSignal { before with runs := runs } after

theorem WritesRuns.trans {first second third : Database} (h : WritesRuns first second) (h' : WritesRuns second third) :
    WritesRuns first third := by
  obtain ⟨_, hWrites⟩ := h
  obtain ⟨runs, hLast⟩ := h'
  refine ⟨runs, .trans ?_ hLast⟩
  obtain ⟨_, _, _, _, later, projected, rfl, hLogged⟩ := hWrites
  exact ⟨_, _, _, _, later, projected, rfl, hLogged⟩

theorem persistSignalEvent_frame {actor : Actor} {event : Event} (h : IsSignal event) :
    WritesRuns db (AutoAppend.persistSignalEvent env actor event db).2 := by
  refine AutoAppend.persistSignalEvent_rel (fun db => ⟨db.runs, .unlogged rfl⟩) (fun _ _ _ => .trans)
    (fun before _ hLog => ⟨before.runs, hLog.mono fun _ hIs => hIs ▸ h⟩) ?_
  intro env envelope step before after hPayload hStep hTaken
  have hSignal : IsSignal envelope.payload := hPayload ▸ h
  rcases h with ⟨documentId, line, instant, hLine⟩ | ⟨now, signal, rfl⟩
  · exact ⟨before.runs, AutoAppend.line_projected ⟨documentId, line, instant, hPayload.trans hLine⟩ hSignal hStep hTaken⟩
  · simp only [Projections.projectors, mem_cons, not_mem_nil, or_false] at hStep
    cases signal <;> rcases hStep with rfl | rfl | rfl | rfl | rfl | rfl | rfl | rfl | rfl | rfl | rfl | rfl | rfl
    all_goals
      simp only [Projections.tasks, TaskRepo.applyEvent, TaskRepo.applyTaskEvent, Projections.records, ProjectRepo.applyEvent,
        CommentRepo.applyEvent, PlanRepo.applyEvent, RunRepo.applyEvent, RunRepo.applyRunEvent,
        RunNoteRepo.applyEvent, SessionRepo.applyEvent, AgentClaimRepo.applyEvent, WorkLeaseRepo.applyEvent, Projections.documents, ProjectSettingsRepo.applyEvent,
        WorkUnitRepo.applyEvent, Projections.handoffs, HandoffRepo.applyEvent, Projections.rules, RuleRepo.applyEvent,
        EvidenceRepo.applyEvent, ArtifactRepo.applyEvent, hPayload, WatchdogSignal.event] at hTaken
      first
      | exact ⟨after.runs, .unlogged (by cases hTaken; rfl)⟩
      | exact ⟨after.runs, .projected hSignal (by cases hTaken; rfl)⟩

/-- An event that the server puts on record by itself, or for a claim. -/
def IsOwn (event : Event) : Prop := IsSignal event ∨ ∃ claim, event = .claim claim

theorem serve_rule {post : Database → Prop} (hCall : Call.isCommand call = false)
    (h : ∀ {runs agentClaims after}, WritesLog IsOwn { db with runs := runs, agentClaims := agentClaims } after →
      post after) : post (serve config db call) := by
  by_cases hSignal : Call.isSignal call = true
  · cases call with
    | signal env signal =>
      obtain ⟨runs, hWrites⟩ : WritesRuns db (serve config db (.signal env signal)) :=
        persistSignalEvent_frame (.inr ⟨env.now, signal, rfl⟩)
      exact @h runs db.agentClaims _ (hWrites.mono fun _ => .inl)
    | _ => cases hSignal
  · obtain ⟨agentClaims, hWrites⟩ := @serve_claimsOnly config call db hCall (Bool.eq_false_iff.mpr hSignal)
    exact @h db.runs agentClaims _ (hWrites.mono fun _ hIs => hIs.imp_left .inl)

end Server
end Daruma
