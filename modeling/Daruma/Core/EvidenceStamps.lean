import Daruma.Core.LifecycleSteps

/-! Who evidence is stamped with: a call stamps the evidence that it records with the
authenticated caller, in the log and in the projection. -/
namespace Daruma

open Stateful List

def Event.StampedBy (id : Option AgentId) (event : Event) : Prop :=
  ∀ evidence, event = .evidence (.evidenceRecorded evidence) → evidence.authenticatedActorId = id

/-- A row as it was, or superseded since. -/
def Evidence.Remains (old new : Evidence) : Prop :=
  new = old ∨ ∃ supersededBy, new = { old with supersededBy := some supersededBy }

theorem Evidence.Remains.trans {first second third : Evidence} (h : first.Remains second) (h' : second.Remains third) :
    first.Remains third := by
  rcases h with rfl | ⟨supersededBy, rfl⟩
  · exact h'
  · rcases h' with rfl | ⟨again, rfl⟩
    · exact .inr ⟨supersededBy, rfl⟩
    · exact .inr ⟨again, rfl⟩

/-- What is recorded, and what the projection takes in, is stamped with a principal. -/
structure StampsEvidence (id : Option AgentId) (before after : Database) : Prop where
  log : ∃ later, after.events.rows = before.events.rows ++ later ∧ ∀ envelope ∈ later, envelope.payload.StampedBy id
  live : ∀ evidence ∈ after.evidence,
    evidence.authenticatedActorId = id ∨ ∃ old ∈ before.evidence, old.Remains evidence

namespace StampsEvidence

variable {id : Option AgentId} {db db' : Database}

theorem refl (db : Database) : StampsEvidence id db db :=
  ⟨⟨[], (append_nil _).symm, fun _ hMem => absurd hMem not_mem_nil⟩,
    fun evidence hMem => .inr ⟨evidence, hMem, .inl rfl⟩⟩

theorem trans {first second third : Database} (h : StampsEvidence id first second) (h' : StampsEvidence id second third) :
    StampsEvidence id first third := by
  obtain ⟨later, hLog, hLater⟩ := h.log
  obtain ⟨last, hLog', hLast⟩ := h'.log
  refine ⟨⟨later ++ last, by rw [hLog', hLog, append_assoc], fun envelope hMem => ?_⟩, fun evidence hMem => ?_⟩
  · rcases mem_append.mp hMem with hLater' | hLast'
    · exact hLater envelope hLater'
    · exact hLast envelope hLast'
  · rcases h'.live evidence hMem with hStamped | ⟨middle, hMiddle, hRemains⟩
    · exact .inl hStamped
    · rcases h.live middle hMiddle with hStamped | ⟨old, hOld, hRemains'⟩
      · left
        rcases hRemains with rfl | ⟨supersededBy, rfl⟩
        · exact hStamped
        · exact hStamped
      · exact .inr ⟨old, hOld, hRemains'.trans hRemains⟩

theorem of_same (hLog : db'.events = db.events) (hLive : db'.evidence = db.evidence) : StampsEvidence id db db' := by
  refine ⟨⟨[], ?_, fun _ hMem => absurd hMem not_mem_nil⟩, fun evidence hMem => .inr ⟨evidence, hLive ▸ hMem, .inl rfl⟩⟩
  rw [hLog, append_nil]

/-- Lines, signals and claims record no evidence. -/
theorem of_writes {logged : Event → Prop} {middle : Database} (h : WritesLog logged middle db')
    (hLog : middle.events = db.events) (hLive : middle.evidence = db.evidence)
    (hOther : ∀ event, logged event → event.StampedBy id) : StampsEvidence id db db' := by
  obtain ⟨_, _, _, _, later, _, rfl, hRows, hLater, _⟩ := h
  exact ⟨⟨later, hLog ▸ hRows, fun envelope hMem => hOther _ (hLater envelope hMem)⟩,
    fun evidence hMem => .inr ⟨evidence, hLive ▸ hMem, .inl rfl⟩⟩

theorem of_append {stored : List EventEnvelope} (hLog : db'.events.rows = db.events.rows ++ stored)
    (hLive : db'.evidence = db.evidence) (hStamped : ∀ event ∈ stored.map EventEnvelope.payload, event.StampedBy id) :
    StampsEvidence id db db' :=
  ⟨⟨stored, hLog, fun _ hMem => hStamped _ (mem_map_of_mem hMem)⟩,
    fun evidence hMem => .inr ⟨evidence, hLive ▸ hMem, .inl rfl⟩⟩

end StampsEvidence

namespace Projections

variable {id : Option AgentId} {db db' : Database} {env : Env} {envelope : EventEnvelope}

theorem evidence_stamps (hStamped : envelope.payload.StampedBy id) :
    StampsEvidence id db (EvidenceRepo.applyEvent db envelope) := by
  unfold EvidenceRepo.applyEvent
  split
  · rename_i evidence hPayload
    split
    · exact .refl db
    · refine ⟨(StampsEvidence.refl db).log, fun row hMem => ?_⟩
      rcases KeyedTable.mem_upsert.mp hMem with rfl | ⟨hOld, _⟩
      · exact .inl (hStamped _ hPayload)
      · exact .inr ⟨row, hOld, .inl rfl⟩
  · rename_i evidenceId supersededBy instant _
    refine ⟨(StampsEvidence.refl db).log, fun row hMem => ?_⟩
    have hModified := (KeyedTable.mem_modify (f := fun evidence : Evidence =>
      { evidence with supersededBy := some supersededBy }) fun _ => rfl).mp hMem
    rcases hModified with ⟨old, hOld, _, rfl⟩ | ⟨hOld, _⟩
    · exact .inr ⟨old, hOld, .inr ⟨supersededBy, rfl⟩⟩
    · exact .inr ⟨row, hOld, .inl rfl⟩
  · exact .refl db

theorem projectors_stamps (hStamped : envelope.payload.StampedBy id) {step : Database → Result Database}
    (hStep : step ∈ projectors env envelope) (h : step db = .ok db') : StampsEvidence id db db' := by
  obtain ⟨_, hWrote⟩ := exists_wrote hStep h
  cases hWrote with
  | evidence hApplied => exact hApplied ▸ evidence_stamps hStamped
  | _ => exact .of_same rfl rfl

theorem applyEvents_stamps {envelopes : List EventEnvelope} {outcome : Except CoreError Unit}
    (hStamped : ∀ event ∈ envelopes.map EventEnvelope.payload, event.StampedBy id)
    (h : applyEvents env envelopes db = (outcome, db')) : StampsEvidence id db db' := by
  refine inTurn_rel .refl (fun _ _ _ => .trans) ?_ h
  intro step hStep before after hRun
  obtain ⟨envelope, hMem, hProjector⟩ := mem_flatMap.mp hStep
  exact projectors_stamps (hStamped _ (mem_map_of_mem hMem)) hProjector hRun

end Projections

namespace Handler

variable {config : Config} {env : Env} {caller : Caller} {command : Command} {claimed : Actor} {db : Database}
  {batch : List Event} {relations : Relations} {trail : GateStage.Trail} {persisted : List EventEnvelope}
  {appended : Database}

theorem authenticated_stamped (event : Event) : (authenticated caller event).StampedBy caller.agentId := by
  intro evidence hIs
  unfold authenticated at hIs
  split at hIs
  · cases hIs
    rfl
  · rename_i hOther
    exact absurd hIs (hOther evidence)

theorem Accepted.stamped
    (h : Accepted config env caller command claimed db batch relations trail persisted appended) :
    ∀ event ∈ persisted.map EventEnvelope.payload, event.StampedBy caller.agentId := by
  rintro event hMem evidence rfl
  have hEvent := h.mem_batch hMem rfl
  obtain ⟨warnings, hDraft⟩ := h.built
  obtain ⟨sourced, _, _, hDraft⟩ := bind_eq_ok.mp hDraft
  obtain ⟨built, _, _, hDraft⟩ := bind_eq_ok.mp hDraft
  obtain ⟨hBatch, _⟩ := pure_eq.mp hDraft
  cases hBatch
  rcases mem_append.mp hEvent with hBuilt | hPlan
  · obtain ⟨origin, _, hIs⟩ := mem_map.mp hBuilt
    exact authenticated_stamped origin evidence hIs
  · obtain ⟨_, _, hIs⟩ := mem_map.mp hPlan
    cases hIs

theorem handle_stamps (db : Database) : StampsEvidence caller.agentId db
    (handleWithRunOwner config env caller command claimed db).2 := by
  refine handle_rule (fun hAudited => ?_) (fun {_ _ _ _ appended _ _} hAccepted hApplied => ?_)
    fun hLines hApplied => hApplied.trans (.of_writes hLines rfl rfl ?_)
  · obtain ⟨audit, hAudit, hLog, _, _, _, rfl⟩ := hAudited
    refine .of_append hLog rfl fun event hMem evidence hIs => ?_
    obtain ⟨envelope, hEnvelope, rfl⟩ := mem_map.mp hMem
    have hIsAudit := hAudit envelope hEnvelope
    rw [hIs] at hIsAudit
    cases hIsAudit
  · have hStored : StampsEvidence caller.agentId db appended := by
      obtain ⟨_, _, _, _, _, rfl⟩ := hAccepted.frame
      exact .of_append hAccepted.log rfl hAccepted.stamped
    exact hStored.trans (Projections.applyEvents_stamps hAccepted.stamped hApplied)
  · rintro event ⟨_, _, _, rfl⟩ evidence hIs
    cases hIs

end Handler

namespace Server

variable {id : Option AgentId} {config : Config}

/-- The principal that a call is made by; a call of the server itself records no evidence. -/
def Call.isBy (id : Option AgentId) : Call → Prop
  | .command _ caller _ _ => caller.agentId = id
  | _ => True

theorem serve_stamps {call : Call} (hBy : Call.isBy id call) (db : Database) :
    StampsEvidence id db (serve config db call) := by
  cases call with
  | command env caller command claimed =>
    have hCaller : caller.agentId = id := hBy
    rw [← hCaller]
    exact Handler.handle_stamps db
  | _ =>
    refine serve_rule rfl fun hWrites => .of_writes hWrites rfl rfl ?_
    rintro event ((⟨_, _, _, rfl⟩ | ⟨_, signal, rfl⟩) | ⟨_, rfl⟩) evidence hIs
    · cases hIs
    · cases signal <;> cases hIs
    · cases hIs

end Server
end Daruma
