import Daruma.Core.HandlerSteps
import Daruma.Core.ProjectionFrames

/-! What persisting a batch writes: its events in the log, followed by the
releases of the claims that it ends, and the runs and claims themselves. -/
namespace Daruma

open List
open EventEnvelope (payload)

namespace AgentClaimRepo

theorem endRuns_frame (db : Database) (status : RunStatus) (reason : String) (endedAt : Timestamp)
    (ended : List Run) : ∃ runs agentClaims owners, (endRuns db status reason endedAt ended).1 =
      { db with runs := runs, agentClaims := agentClaims, runClaimOwners := owners } := by
  induction ended generalizing db with
  | nil => exact ⟨_, _, _, rfl⟩
  | cons run rest ih =>
    unfold endRuns
    obtain ⟨runs, agentClaims, owners, h⟩ := ih _
    exact ⟨runs, agentClaims, owners, h⟩

def AppendedWith (db : Database) (env : Env) (actor : Actor) (envelopes persisted : List EventEnvelope)
    (db' : Database) : Prop :=
  ∃ runs agentClaims owners released, appendBatch
    { db with runs := runs, agentClaims := agentClaims, runClaimOwners := owners }
    (envelopes ++ releasedEvents env actor released) = .ok (persisted, db')

variable {env : Env} {actor : Actor} {envelopes persisted : List EventEnvelope} {db db' : Database}

theorem appendedWith_of_append (h : appendBatch db envelopes = .ok (persisted, db')) :
    AppendedWith db env actor envelopes persisted db' :=
  ⟨db.runs, db.agentClaims, db.runClaimOwners, [], by simpa [releasedEvents] using h⟩

theorem recordRunStarted_ok {ownerAgentId : AgentId}
    (h : recordRunStarted db ownerAgentId envelopes = .ok (persisted, db')) :
    AppendedWith db env actor envelopes persisted db' := by
  unfold recordRunStarted at h
  dsimp only at h
  split at h
  · cases h
  · split at h
    · cases h
    · exact ⟨_, _, _, [], by simpa [releasedEvents] using h⟩

variable {isAdmin : Bool}

theorem recordRunTerminal_ok {agentId : AgentId}
    (h : recordRunTerminal db env actor agentId isAdmin envelopes = .ok (persisted, db')) :
    AppendedWith db env actor envelopes persisted db' := by
  unfold recordRunTerminal at h
  split at h
  · cases h
  split at h
  · cases h
  dsimp only at h
  split at h
  · cases h
  split at h
  · cases h
  split at h
  · cases h
  · exact ⟨_, _, _, _, h⟩

theorem recordPlanTerminal_ok {agentId : Option AgentId}
    (h : recordPlanTerminal db env actor agentId isAdmin envelopes = .ok (persisted, db')) :
    AppendedWith db env actor envelopes persisted db' := by
  unfold recordPlanTerminal at h
  split at h
  · cases h
  dsimp only at h
  split at h
  · cases h
  · rename_i status reason endedAt _ _
    obtain ⟨runs, agentClaims, owners, hFrame⟩ := endRuns_frame db status reason endedAt _
    rw [hFrame] at h
    exact ⟨_, _, _, _, h⟩

theorem recordTaskLifecycle_ok (h : recordTaskLifecycle db env actor envelopes = .ok (persisted, db')) :
    AppendedWith db env actor envelopes persisted db' :=
  ⟨_, _, _, _, h⟩

end AgentClaimRepo

namespace Handler

variable {config : Config} {env : Env} {caller : Caller} {command : Command} {actor claimed : Actor}
  {db db' : Database}

theorem persist_ok {envelopes persisted : List EventEnvelope}
    (h : persist db env caller actor command envelopes = .ok (persisted, db')) :
    AgentClaimRepo.AppendedWith db env actor envelopes persisted db' := by
  unfold persist at h
  split at h
  · exact AgentClaimRepo.recordRunStarted_ok h
  · exact AgentClaimRepo.recordRunTerminal_ok h
  · exact AgentClaimRepo.recordRunTerminal_ok h
  · split at h
    · exact AgentClaimRepo.recordTaskLifecycle_ok h
    · split at h
      · exact AgentClaimRepo.recordPlanTerminal_ok h
      · exact AgentClaimRepo.appendedWith_of_append h

def relinkEvent (origin : EventId) : Event → Event
  | .task (.taskCreated task) => .task (.taskCreated { task with sourceEventId := some origin })
  | event => event

theorem relink_payload (origin : EventId) (envelope : EventEnvelope) :
    (relink origin envelope).payload = relinkEvent origin envelope.payload := by
  unfold relink
  split
  · rename_i task hPayload
    rw [hPayload]
    rfl
  · rename_i hOther
    unfold relinkEvent
    split
    · rename_i task hPayload
      exact absurd hPayload (hOther task)
    · rfl

def Relinking (f : Event → Event) : Prop := f = id ∨ ∃ origin, f = relinkEvent origin

theorem Relinking.reads {α : Type} {f : Event → Event} (h : Relinking f) (g : Event → α)
    (hCreated : ∀ origin task, g (relinkEvent origin (.task (.taskCreated task))) = g (.task (.taskCreated task)))
    (event : Event) : g (f event) = g event := by
  rcases h with rfl | ⟨origin, rfl⟩
  · rfl
  · cases event with
    | task event =>
      cases event with
      | taskCreated task => exact hCreated origin task
      | _ => rfl
    | _ => rfl

theorem withProvenance_payloads (command : Command) (envelopes : List EventEnvelope) :
    ∃ f, Relinking f ∧ (withProvenance command envelopes).map payload =
      (envelopes.map payload).map f := by
  have hRelinkTo : ∀ origin : Option EventId, ∃ f, Relinking f ∧
      (relinkTo origin envelopes).map payload = (envelopes.map payload).map f := by
    intro origin
    cases origin with
    | none => exact ⟨id, .inl rfl, (map_id _).symm⟩
    | some origin =>
      refine ⟨relinkEvent origin, .inr ⟨origin, rfl⟩, ?_⟩
      rw [relinkTo, map_map, map_map]
      exact map_congr_left fun envelope _ => relink_payload origin envelope
  unfold withProvenance
  split
  · exact hRelinkTo _
  · exact hRelinkTo _
  · exact ⟨id, .inl rfl, (map_id _).symm⟩

def IsRelease (event : Event) : Prop :=
  ∃ agentId taskId claimId, event = .claim (.agentReleased agentId taskId (some claimId))

theorem releasedEvents_payload {released : List AgentClaim} {envelope : EventEnvelope}
    (h : envelope ∈ AgentClaimRepo.releasedEvents env actor released) : IsRelease envelope.payload := by
  obtain ⟨n, hn, rfl⟩ := mem_mapIdx.mp h
  exact ⟨_, _, _, rfl⟩

section

variable {batch : List Event} {relations : Relations} {trail : GateStage.Trail}
  {persisted : List EventEnvelope} {appended : Database}

variable (h : Accepted config env caller command claimed db batch relations trail persisted appended)

include h in
theorem Accepted.log : appended.events.rows = db.events.rows ++ persisted := by
  obtain ⟨runs, agentClaims, owners, released, hAppend⟩ := persist_ok h.stored
  exact (appendBatch_ok hAppend).2.1

include h in
theorem Accepted.payloads : ∃ f audit metrics releases, Relinking f ∧ (∀ event ∈ audit, event.isAudit = true) ∧
      (∀ event ∈ metrics, event.isAudit = true) ∧ (∀ event ∈ releases, IsRelease event) ∧
      persisted.map payload = audit ++ batch.map f ++ metrics ++ releases := by
  obtain ⟨runs, agentClaims, owners, released, hAppend⟩ := persist_ok h.stored
  obtain ⟨f, hRelinking, hPayloads⟩ := withProvenance_payloads command (envelopesOf (env.part 2)
    (attributedActor caller command claimed) (trail.surround batch))
  have hAudit : ∀ list : List AuditEvent, (list.map Event.audit).map f = list.map Event.audit := by
    intro list
    rw [map_map]
    refine map_congr_left fun event _ => ?_
    rcases hRelinking with rfl | ⟨origin, rfl⟩
    · rfl
    · rfl
  have hIsAudit : ∀ list : List AuditEvent, ∀ event ∈ list.map Event.audit, event.isAudit = true := by
    intro list event hMem
    obtain ⟨audit, _, rfl⟩ := mem_map.mp hMem
    rfl
  refine ⟨f, trail.audit.map .audit, trail.metrics.map .audit, (AgentClaimRepo.releasedEvents (env.part 3)
    (attributedActor caller command claimed) released).map payload, hRelinking,
    hIsAudit trail.audit, hIsAudit trail.metrics, ?_, ?_⟩
  · intro event hMem
    obtain ⟨envelope, hEnvelope, rfl⟩ := mem_map.mp hMem
    exact releasedEvents_payload hEnvelope
  · rw [(appendBatch_ok hAppend).1, map_append, hPayloads, envelopesOf_payload, GateStage.Trail.surround,
      map_append, map_append, hAudit, hAudit]

include h in
theorem Accepted.frame : ∃ events latestSeq runs agentClaims owners, appended = { db with
      relations := relations, events := events, latestSeq := latestSeq, runs := runs,
      agentClaims := agentClaims, runClaimOwners := owners } := by
  obtain ⟨runs, agentClaims, owners, released, hAppend⟩ := persist_ok h.stored
  obtain ⟨events, latestSeq, rfl⟩ := (appendBatch_ok hAppend).2.2
  exact ⟨events, latestSeq, runs, agentClaims, owners, rfl⟩

end

end Handler
end Daruma
