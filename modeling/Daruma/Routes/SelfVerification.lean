import Daruma.Core.EvidenceStamps
import Daruma.Routes.ReplicaEvents

/-! Independent verification of tests by a principal on its own: through the handler,
which stamps evidence with the caller, and through the endpoint of replicas, which
takes events as they are. -/
namespace Daruma

open KeyedTable List

/-- Evidence that counts as a passing test attestation by someone else than the executor. -/
def Evidence.Attests (executor : AgentId) (evidence : Evidence) : Prop :=
  (∃ taskId revision, evidence.scope = .task taskId ∧ evidence.target = some ("test-verification:" ++ revision)) ∧
    evidence.kind = .artifactCreated ∧ evidence.supersededBy = none ∧ evidence.authenticatedActorId.isSome = true ∧
    evidence.authenticatedActorId = evidence.actor.id ∧ evidence.actor.id ≠ some executor ∧
    evidence.payload.get? "passed" = some (.bool true)

namespace EvidenceRepo

/-- The projection of evidence as a replay of the log builds it. -/
def replayed (log : List EventEnvelope) : Database := log.foldl applyEvent Database.empty

variable {db : Database} {executor : AgentId}

def NoneAttests (executor : AgentId) (db : Database) : Prop := ∀ evidence ∈ db.evidence, ¬evidence.Attests executor

theorem not_verified_of_noneAttests (h : NoneAttests executor db) (taskId : TaskId) (revision : String) :
    hasIndependentTestVerification db taskId executor revision = false := by
  refine any_eq_false.mpr fun evidence hMem hVerified => h evidence hMem ?_
  simp only [Bool.and_eq_true, decide_eq_true_eq] at hVerified
  obtain ⟨⟨⟨⟨⟨⟨⟨hScope, hKind⟩, hTarget⟩, hLive⟩, hSome⟩, hSame⟩, hOther⟩, hPassed⟩ := hVerified
  refine ⟨⟨taskId, revision, hScope, hTarget⟩, hKind, hLive, hSome, hSame, hOther, ?_⟩
  split at hPassed
  · rename_i hIs
    exact hIs
  · cases hPassed

theorem attests_of_remains {old new : Evidence} (h : old.Remains new) (hAttests : new.Attests executor) :
    old.Attests executor := by
  rcases h with rfl | ⟨supersededBy, rfl⟩
  · exact hAttests
  · cases hAttests.2.2.1

theorem noneAttests_applyEvent {envelope : EventEnvelope} (h : NoneAttests executor db)
    (hRecords : ∀ evidence, envelope.payload = .evidence (.evidenceRecorded evidence) →
      db.evidence.contains evidence.id = false → ¬evidence.Attests executor) :
    NoneAttests executor (applyEvent db envelope) := by
  unfold applyEvent
  split
  · rename_i evidence hPayload
    split
    · exact h
    · rename_i hNew
      intro row hMem
      rcases mem_upsert.mp hMem with rfl | ⟨hOld, _⟩
      · exact hRecords _ hPayload (Bool.eq_false_iff.mpr hNew)
      · exact h row hOld
  · rename_i evidenceId supersededBy instant _
    intro row hMem
    have hModified := (mem_modify (f := fun evidence : Evidence =>
      { evidence with supersededBy := some supersededBy }) fun _ => rfl).mp hMem
    rcases hModified with ⟨old, hOld, _, rfl⟩ | ⟨hOld, _⟩
    · exact fun hAttests => h old hOld (attests_of_remains (.inr ⟨supersededBy, rfl⟩) hAttests)
    · exact h row hOld
  · exact h

theorem not_attests_of_stamp {evidence : Evidence} (h : evidence.authenticatedActorId = some executor) :
    ¬evidence.Attests executor := by
  rintro ⟨_, _, _, _, hSame, hOther, _⟩
  exact hOther (hSame.symm.trans h)

end EvidenceRepo

open EvidenceRepo (NoneAttests replayed not_attests_of_stamp noneAttests_applyEvent)

/-- Nothing attests tests for the executor, neither in the projection nor in a replay
of the log. -/
def Unattested (executor : AgentId) (db : Database) : Prop :=
  NoneAttests executor db ∧ NoneAttests executor (replayed db.events.rows)

section

variable {db db' : Database} {executor : AgentId} {env : Env} {envelope : EventEnvelope} {events : List EventEnvelope}

theorem noneAttests_replayed_append {log later : List EventEnvelope} (h : NoneAttests executor (replayed log))
    (hStamped : ∀ envelope ∈ later, envelope.payload.StampedBy (some executor)) :
    NoneAttests executor (replayed (log ++ later)) := by
  induction later generalizing log with
  | nil => exact (append_nil log).symm ▸ h
  | cons envelope rest ih =>
    obtain ⟨hFirst, hRest⟩ := forall_mem_cons.mp hStamped
    rw [append_cons]
    refine ih ?_ hRest
    rw [replayed, foldl_append]
    exact noneAttests_applyEvent h fun evidence hPayload _ => not_attests_of_stamp (hFirst evidence hPayload)

theorem StampsEvidence.unattested (h : StampsEvidence (some executor) db db') (hBefore : Unattested executor db) :
    Unattested executor db' := by
  refine ⟨fun evidence hMem hAttests => ?_, ?_⟩
  · rcases h.live evidence hMem with hStamped | ⟨old, hOld, hRemains⟩
    · exact not_attests_of_stamp hStamped hAttests
    · exact hBefore.1 old hOld (EvidenceRepo.attests_of_remains hRemains hAttests)
  · obtain ⟨later, hLog, hStamped⟩ := h.log
    rw [hLog]
    exact noneAttests_replayed_append hBefore.2 hStamped

namespace ReplicaEvents

def SendsAttestation (executor : AgentId) (db : Database) (envelope : EventEnvelope) : Prop :=
  (∃ persisted appended, appendOn db { envelope with seq := 0 } = .ok (persisted, appended)) ∧
    ∃ evidence, envelope.payload = .evidence (.evidenceRecorded evidence) ∧
      (replayed db.events.rows).evidence.contains evidence.id = false ∧ evidence.Attests executor

/-- Neither the projection of evidence nor the log changes. -/
def SameEvidence (db db' : Database) : Prop := db'.evidence = db.evidence ∧ db'.events = db.events

theorem applyPersistedEvent_sameEvidence {outcome : Except CoreError Unit}
    (h : applyPersistedEvent env envelope db = (outcome, db')) : SameEvidence db db' := by
  refine Stateful.inTurn_rel (fun _ => ⟨rfl, rfl⟩) (fun _ _ _ => ?_) ?_ h
  · exact fun ⟨hFirst, hFirst'⟩ ⟨hSecond, hSecond'⟩ => ⟨hSecond.trans hFirst, hSecond'.trans hFirst'⟩
  intro step hStep first last hRun
  have hSplit : projectors env envelope = (Projections.projectors env envelope).take 7 ++
      [fun db => .ok (documents envelope db)] := rfl
  rw [hSplit] at hStep
  rcases mem_append.mp hStep with hFirst | hDocuments
  · obtain ⟨_, hEarly, hWrote⟩ := Projections.exists_wrote_take hFirst hRun
    cases hWrote with
    | evidence => exact absurd hEarly (by decide)
    | _ => exact ⟨rfl, rfl⟩
  · cases mem_singleton.mp hDocuments
    cases hRun
    exact ⟨rfl, rfl⟩

theorem takeIn_unattested (hBefore : Unattested executor db) (hSends : ¬SendsAttestation executor db envelope) :
    Unattested executor (takeIn env envelope db).2 := by
  cases hTaken : takeIn env envelope db with
  | mk outcome after =>
  cases takesIn hTaken with
  | duplicate | refused => exact hBefore
  | @appended persisted appended _ _ hNew hAppended hApplied =>
    obtain ⟨hPersisted, _, hRows, _, _, _, rfl⟩ := appendOn_ok hAppended
    obtain ⟨hLive, hLog⟩ := applyPersistedEvent_sameEvidence hApplied
    refine ⟨fun evidence hMem => hBefore.1 evidence (hLive ▸ hMem), ?_⟩
    dsimp only at hRows
    rw [hLog, hRows, replayed, foldl_append]
    refine noneAttests_applyEvent hBefore.2 fun evidence hPayload hNew hAttests => ?_
    rw [hPersisted] at hPayload
    exact hSends ⟨⟨_, _, hAppended⟩, evidence, hPayload, hNew, hAttests⟩

/-- What attests nothing for the executor still attests nothing. -/
def StaysUnattested (executor : AgentId) (db db' : Database) : Prop := Unattested executor db → Unattested executor db'

theorem appendReplicaEvents_unattested {canWriteTasks : Bool} (hBefore : Unattested executor db)
    (hSends : admissible canWriteTasks events = .ok () →
      EachTaken env (fun db envelope => ¬SendsAttestation executor db envelope) db events) :
    Unattested executor (appendReplicaEvents env canWriteTasks events db).2 := by
  rw [appendReplicaEvents, Stateful.bind_eq]
  dsimp only [Stateful.lift]
  cases hAdmit : admissible canWriteTasks events with
  | error e => exact hBefore
  | ok u =>
    have hStays : StaysUnattested executor db (takeAll env events db).2 :=
      (hSends hAdmit).keeps (fun _ h => h) (fun _ _ _ hFirst hSecond h => hSecond (hFirst h))
        fun db envelope hNot hBefore => takeIn_unattested hBefore hNot
    exact hStays hBefore

end ReplicaEvents

end

inductive Request where
  | call (call : Call)
  | push (env : Env) (canWriteTasks : Bool) (events : List EventEnvelope)

namespace Server

variable {config : Config} {executor : AgentId} {requests : List Request}

def answer (config : Config) (db : Database) : Request → Database
  | .call call => serve config db call
  | .push env canWriteTasks events => (ReplicaEvents.appendReplicaEvents env canWriteTasks events db).2

/-- The requests are made by one principal, or by the server itself. -/
def Request.isBy (id : Option AgentId) : Request → Prop
  | .call call => Call.isBy id call
  | .push .. => True

/-- An admitted push sends no attestation for the principal that makes it. -/
def SendsNoAttestation (executor : AgentId) (db : Database) : Request → Prop
  | .call _ => True
  | .push env canWriteTasks events => ReplicaEvents.admissible canWriteTasks events = .ok () →
      ReplicaEvents.EachTaken env (fun db envelope => ¬ReplicaEvents.SendsAttestation executor db envelope) db events

def RequestsMeet (config : Config) (condition : Database → Request → Prop) : Database → List Request → Prop
  | _, [] => True
  | db, request :: rest => condition db request ∧ RequestsMeet config condition (answer config db request) rest

theorem answer_unattested {db : Database} {request : Request} (hBefore : Unattested executor db)
    (hBy : Request.isBy (some executor) request) (hSends : SendsNoAttestation executor db request) :
    Unattested executor (answer config db request) := by
  cases request with
  | call call => exact (serve_stamps hBy db).unattested hBefore
  | push env canWriteTasks events => exact ReplicaEvents.appendReplicaEvents_unattested hBefore hSends

/-- A principal that makes all requests itself verifies none of its own tests, in the
projection or in a replay of the log, unless it pushes an attestation. -/
theorem no_self_verification (hBy : ∀ request ∈ requests, Request.isBy (some executor) request)
    (hSends : RequestsMeet config (SendsNoAttestation executor) Database.empty requests) :
    ∀ earlier later, requests = earlier ++ later → ∀ taskId revision,
      EvidenceRepo.hasIndependentTestVerification (earlier.foldl (answer config) Database.empty) taskId executor revision = false ∧
      EvidenceRepo.hasIndependentTestVerification
        (replayed (earlier.foldl (answer config) Database.empty).events.rows) taskId executor revision = false := by
  have hRun : ∀ (earlier : List Request) db, Unattested executor db →
      (∀ request ∈ earlier, Request.isBy (some executor) request) → ∀ later,
      RequestsMeet config (SendsNoAttestation executor) db (earlier ++ later) →
      Unattested executor (earlier.foldl (answer config) db) := by
    intro earlier
    induction earlier with
    | nil => exact fun _ hBefore _ _ _ => hBefore
    | cons request rest ih =>
      intro db hBefore hAll later hMeets
      obtain ⟨hFirst, hRest⟩ := forall_mem_cons.mp hAll
      exact ih _ (answer_unattested hBefore hFirst hMeets.1) hRest later hMeets.2
  rintro earlier later rfl taskId revision
  have hEmpty : Unattested executor Database.empty :=
    ⟨fun evidence hMem => absurd hMem (not_mem_empty evidence),
      fun evidence hMem => absurd hMem (not_mem_empty evidence)⟩
  obtain ⟨hLive, hReplayed⟩ := hRun earlier _ hEmpty (fun request hMem => hBy request (mem_append_left _ hMem)) later hSends
  exact ⟨EvidenceRepo.not_verified_of_noneAttests hLive taskId revision,
    EvidenceRepo.not_verified_of_noneAttests hReplayed taskId revision⟩

private def attestation (actor : ActorRef) : Evidence :=
  ((NewEvidence.mk none .artifactCreated (.task ⟨7⟩) (some "test-verification:r1") none "tests passed"
    (.object [("passed", .bool true)]) none none none none none none none).intoEvidence ⟨9⟩ actor 0)

private def pushed (evidence : Evidence) : EventEnvelope :=
  ⟨⟨1⟩, 0, 0, .anyUser, none, 0, .evidence (.evidenceRecorded evidence)⟩

/-- Attested by the principal itself, and by another one in the words of the first. -/
private def attestedBy (id : AgentId) : Evidence :=
  { attestation ⟨"agent", some id, none⟩ with authenticatedActorId := some id }

private def ownRequests : List Request :=
  [.call (.command (nthEnv 0) ⟨some ⟨1⟩, false⟩ (.task (.createTask { NewTask.new "task" with id := some ⟨7⟩ })) .anyUser),
    .push (nthEnv 1) true [pushed (attestedBy ⟨1⟩)]]

theorem no_self_verification_own :
    EvidenceRepo.hasIndependentTestVerification (ownRequests.foldl (answer engineConfig) Database.empty) ⟨7⟩ ⟨1⟩ "r1" = false ∧
    EvidenceRepo.hasIndependentTestVerification
      (replayed (ownRequests.foldl (answer engineConfig) Database.empty).events.rows) ⟨7⟩ ⟨1⟩ "r1" = false := by
  have hBy : ∀ request ∈ ownRequests, Request.isBy (some ⟨1⟩) request := by
    intro request hMem
    rcases mem_cons.mp hMem with rfl | hMem
    · exact rfl
    · cases mem_singleton.mp hMem
      trivial
  have hSends : RequestsMeet engineConfig (SendsNoAttestation ⟨1⟩) Database.empty ownRequests := by
    refine ⟨trivial, fun _ => ⟨?_, fun _ => trivial⟩, trivial⟩
    rintro ⟨_, evidence, hPayload, _, hAttests⟩
    cases hPayload
    exact not_attests_of_stamp rfl hAttests
  exact no_self_verification hBy hSends ownRequests [] (append_nil _).symm ⟨7⟩ "r1"

private def forgedRequests : List Request := [.push (nthEnv 0) true [pushed (attestedBy ⟨2⟩)]]

theorem pushed_attestation_verifies : (∀ request ∈ forgedRequests, Request.isBy (some ⟨1⟩) request) ∧
    EvidenceRepo.hasIndependentTestVerification
      (replayed (forgedRequests.foldl (answer engineConfig) Database.empty).events.rows) ⟨7⟩ ⟨1⟩ "r1" = true := by
  refine ⟨fun request hMem => ?_, by decide +kernel⟩
  cases mem_singleton.mp hMem
  trivial

end Server
end Daruma
