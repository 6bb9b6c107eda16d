import Daruma.Core.Runs
import Daruma.Library.Replay
import Daruma.Routes.ReplicaEvents
import Daruma.Storage.CapabilityProfileRepo

/-! What pushes of a replica leave, failures and retries included, compared with what
the handler makes of the same events. -/
namespace Daruma

open List KeyedTable Stateful
open Stateful (lift inTurn)
open Projections (applyEvents handoffs rules SameLog tasks records)
open WorkLeaseRepo (applyEvent applyReserved releaseLeases)
namespace ReplicaEvents

/-- A failure outside the projections: of the storage, or of the connection. -/
inductive Fault where
  | beforeAppend
  /-- The event is in the log, and so many projections have taken it. -/
  | afterProjections (n : Nat)

def interrupted {α : Type} : Serving α := lift (.error (.storage "interrupted"))

def takeInUnder (fault : Option Fault) (env : Env) (envelope : EventEnvelope) : Serving Taken :=
  match fault with
  | none => takeIn env envelope
  | some .beforeAppend => interrupted
  | some (.afterProjections n) => do
    let db ← Stateful.get
    match db.events.find? envelope.id with
    | some existing => pure ⟨existing, true⟩
    | none => do
      let (persisted, appended) ← lift (appendOn db { envelope with seq := 0 })
      Stateful.set appended
      inTurn ((projectors (env.part persisted.seq) persisted).take n)
      interrupted

def takeAllUnder (env : Env) : List (EventEnvelope × Option Fault) → Serving (List Taken)
  | [] => pure []
  | (envelope, fault) :: rest => do
    let first ← takeInUnder fault env envelope
    let later ← takeAllUnder env rest
    pure (first :: later)

/-- A request to the endpoint, and what fails while it is served. -/
structure Push where
  env : Env
  canWriteTasks : Bool
  events : List (EventEnvelope × Option Fault)

def Push.sent (push : Push) : List EventEnvelope := push.events.map Prod.fst

def ingest (push : Push) : Serving (List Taken) := do
  lift (admissible push.canWriteTasks push.sent)
  takeAllUnder push.env push.events

def ingestAll (db : Database) (pushes : List Push) : Database :=
  pushes.foldl (fun db push => (ingest push db).2) db

variable {Profiles : Type} (foldSignal : Profiles → AgentId → String → CapabilitySignal → Timestamp → Profiles)

/-- What the handler makes of an event: append it, then apply it to all projections. -/
def handled (state : Database × Profiles) (item : Env × EventEnvelope) : Result (Database × Profiles) :=
  match appendOn state.1 { item.2 with seq := 0 } with
  | .error e => .error e
  | .ok (persisted, appended) =>
    match applyEvents item.1 [persisted] appended with
    | (.error e, _) => .error e
    | (.ok (), db) => .ok (db, CapabilityProfileRepo.applyEvent foldSignal appended state.2 persisted)

def artifactTables (db : Database) := (db.artifacts, db.artifactRelations)

/-- The projections that the endpoint does not apply would write nothing. -/
structure LeavesRest (db : Database) (env : Env) (envelope : EventEnvelope) : Prop where
  leases : (applyEvent db envelope).workLeases = db.workLeases
  settings : ProjectSettingsRepo.applyEvent db.projectSettings envelope = db.projectSettings
  profiles : CapabilityProfileRepo.signals db envelope = []
  workUnits : WorkUnitRepo.applyEvent db.workUnits envelope = db.workUnits
  handoffs : HandoffRepo.applyEvent db.handoffs envelope = .ok db.handoffs
  rules : RuleRepo.applyEvent db.rules envelope = .ok db.rules
  evidence : (EvidenceRepo.applyEvent db envelope).evidence = db.evidence
  artifacts : (ArtifactRepo.applyEvent db env envelope).map artifactTables = .ok (artifactTables db)

/-- The tables that these projections write and read. -/
structure KeepsRest (before after : Database) : Prop where
  workLeases : after.workLeases = before.workLeases
  leaseFencing : after.leaseFencing = before.leaseFencing
  projectSettings : after.projectSettings = before.projectSettings
  workUnits : after.workUnits = before.workUnits
  handoffs : after.handoffs = before.handoffs
  rules : after.rules = before.rules
  evidence : after.evidence = before.evidence
  artifacts : after.artifacts = before.artifacts
  artifactRelations : after.artifactRelations = before.artifactRelations

/-- The kinds of event that no projection left out takes. -/
def staysInside : Event → Bool
  | .task (.taskClosed ..) | .project (.projectSettingsChanged ..) | .lease _ | .workUnit _ | .handoff _ | .rule _
  | .evidence _ | .artifact _ => false
  | _ => true

variable {env : Env} {envelope : EventEnvelope} {db db' : Database} {events : List EventEnvelope}

theorem leavesRest_of_staysInside (h : staysInside envelope.payload = true) : LeavesRest db env envelope := by
  obtain ⟨id, seq, occurredAt, actor, device, originSeq, payload⟩ := envelope
  cases payload with
  | task event => cases event <;> first | exact absurd h Bool.false_ne_true | exact ⟨rfl, rfl, rfl, rfl, rfl, rfl, rfl, rfl⟩
  | project event =>
    cases event <;> first | exact absurd h Bool.false_ne_true | exact ⟨rfl, rfl, rfl, rfl, rfl, rfl, rfl, rfl⟩
  | lease | workUnit | handoff | rule | evidence | artifact => exact absurd h Bool.false_ne_true
  | _ => exact ⟨rfl, rfl, rfl, rfl, rfl, rfl, rfl, rfl⟩

namespace KeepsRest

theorem refl (db : Database) : KeepsRest db db := ⟨rfl, rfl, rfl, rfl, rfl, rfl, rfl, rfl, rfl⟩

theorem trans {first second third : Database} (h : KeepsRest first second) (h' : KeepsRest second third) :
    KeepsRest first third :=
  ⟨h'.workLeases.trans h.workLeases, h'.leaseFencing.trans h.leaseFencing,
    h'.projectSettings.trans h.projectSettings, h'.workUnits.trans h.workUnits, h'.handoffs.trans h.handoffs,
    h'.rules.trans h.rules, h'.evidence.trans h.evidence, h'.artifacts.trans h.artifacts,
    h'.artifactRelations.trans h.artifactRelations⟩

variable {first second : Database}

theorem applyReserved_congr {leases : List WorkLease} (h : second.workLeases = first.workLeases) :
    (leases.foldl applyReserved second).workLeases =
      (leases.foldl applyReserved first).workLeases := by
  induction leases generalizing first second with
  | nil => exact h
  | cons lease rest ih =>
    refine ih ?_
    dsimp only [applyReserved]
    rw [h]

theorem releaseLeases_congr {agentId : AgentId} {taskId : TaskId} {ids : List WorkLeaseId}
    (h : second.workLeases = first.workLeases) : (releaseLeases second agentId taskId ids).workLeases =
      (releaseLeases first agentId taskId ids).workLeases := by
  induction ids generalizing first second with
  | nil => exact h
  | cons id rest ih =>
    refine ih ?_
    dsimp only
    rw [h]

theorem leases (h : KeepsRest first second)
    (hRest : (applyEvent first envelope).workLeases = first.workLeases) :
    applyEvent second envelope = second := by
  have hSame : (applyEvent second envelope).workLeases =
      (applyEvent first envelope).workLeases := by
    unfold applyEvent
    split
    · exact applyReserved_congr h.workLeases
    · dsimp only [WorkLeaseRepo.releaseForTask]
      rw [h.workLeases]
    · exact releaseLeases_congr h.workLeases
    · dsimp only [WorkLeaseRepo.releaseAllForTask]
      rw [h.workLeases]
    · exact h.workLeases
  obtain ⟨written, hFrame⟩ := WorkLeaseRepo.applyEvent_frame second envelope
  rw [hFrame] at hSame ⊢
  have hWritten : written = second.workLeases := hSame.trans (hRest.trans h.workLeases.symm)
  rw [hWritten]

theorem evidenceRows (h : KeepsRest first second)
    (hRest : (EvidenceRepo.applyEvent first envelope).evidence = first.evidence) :
    EvidenceRepo.applyEvent second envelope = second := by
  have hSame : (EvidenceRepo.applyEvent second envelope).evidence =
      (EvidenceRepo.applyEvent first envelope).evidence := by
    unfold EvidenceRepo.applyEvent
    rw [h.evidence]
    split
    · split
      · exact h.evidence
      · rfl
    · rfl
    · exact h.evidence
  obtain ⟨written, hFrame⟩ := EvidenceRepo.applyEvent_frame second envelope
  rw [hFrame] at hSame ⊢
  have hWritten : written = second.evidence := hSame.trans (hRest.trans h.evidence.symm)
  rw [hWritten]

theorem applyArtifactEvent_congr (h : KeepsRest first second) (now instant : Timestamp) (event : ArtifactEvent) :
    (ArtifactRepo.applyArtifactEvent second now instant event).map artifactTables =
      (ArtifactRepo.applyArtifactEvent first now instant event).map artifactTables := by
  have hLive : ∀ id agentId token, ArtifactRepo.writeFencingTokenIsLive second now id agentId token =
      ArtifactRepo.writeFencingTokenIsLive first now id agentId token := by
    intro id agentId token
    unfold ArtifactRepo.writeFencingTokenIsLive ArtifactRepo.get WorkLeaseRepo.checkFencingToken
    rw [h.artifacts, h.workLeases, h.leaseFencing]
  have hSame : artifactTables second = artifactTables first := Prod.ext h.artifacts h.artifactRelations
  cases event with
  | artifactRelationAdded relation =>
    dsimp only [ArtifactRepo.applyArtifactEvent, ArtifactRepo.addRelation]
    rw [h.artifacts, h.artifactRelations]
    split
    · exact congrArg Except.ok hSame
    · split <;> rfl
  | artifactChanged artifactId title description changedAt =>
    dsimp only [ArtifactRepo.applyArtifactEvent, ArtifactRepo.updateArtifact]
    split
    · exact congrArg Except.ok hSame
    · rw [h.artifacts]
      exact congrArg Except.ok (Prod.ext rfl h.artifactRelations)
  | artifactWriteCommitted artifactId agentId fencingToken version committedAt =>
    dsimp only [ArtifactRepo.applyArtifactEvent, ArtifactRepo.updateArtifact]
    rw [hLive, h.artifacts]
    split
    · exact congrArg Except.ok (Prod.ext rfl h.artifactRelations)
    · exact congrArg Except.ok hSame
  | roleArtifactStatusChanged artifactId fromStatus toStatus changedAt =>
    dsimp only [ArtifactRepo.applyArtifactEvent, ArtifactRepo.updateArtifact, ArtifactRepo.get]
    rw [h.artifacts]
    split
    · exact congrArg Except.ok (Prod.ext rfl h.artifactRelations)
    · exact congrArg Except.ok hSame
  | artifactRegistered artifact =>
    dsimp only [ArtifactRepo.applyArtifactEvent, ArtifactRepo.upsert]
    rw [h.artifacts, h.artifactRelations]
    rfl
  | artifactRelationRemoved relationId fromId toId kind removedAt =>
    dsimp only [ArtifactRepo.applyArtifactEvent]
    rw [h.artifactRelations]
    exact congrArg Except.ok (Prod.ext h.artifacts rfl)
  | _ =>
    dsimp only [ArtifactRepo.applyArtifactEvent, ArtifactRepo.updateArtifact]
    rw [h.artifacts]
    exact congrArg Except.ok (Prod.ext rfl h.artifactRelations)

theorem artifactRows (h : KeepsRest first second)
    (hRest : (ArtifactRepo.applyEvent first env envelope).map artifactTables = .ok (artifactTables first)) :
    ArtifactRepo.applyEvent second env envelope = .ok second := by
  have hSame : (ArtifactRepo.applyEvent second env envelope).map artifactTables = .ok (artifactTables second) := by
    rw [show artifactTables second = artifactTables first from Prod.ext h.artifacts h.artifactRelations, ← hRest]
    unfold ArtifactRepo.applyEvent
    split
    · exact applyArtifactEvent_congr h _ _ _
    · exact congrArg Except.ok (Prod.ext h.artifacts h.artifactRelations)
  cases hApplied : ArtifactRepo.applyEvent second env envelope with
  | error e =>
    rw [hApplied] at hSame
    cases hSame
  | ok after =>
    obtain ⟨artifacts, relations, rfl⟩ := ArtifactRepo.applyEvent_frame hApplied
    rw [hApplied] at hSame
    injection hSame with hSame
    injection hSame with hArtifacts hRelations
    dsimp only at hArtifacts hRelations
    rw [hArtifacts, hRelations]

end KeepsRest

/-- The projections that the endpoint and the handler both start with. -/
def sharedProjectors (env : Env) (envelope : EventEnvelope) : List (Database → Result Database) :=
  [tasks env envelope,
    fun db => .ok (records envelope db),
    fun db => .ok (PlanRepo.applyEvent db env envelope),
    fun db => .ok (RunRepo.applyEvent db envelope),
    fun db => RunNoteRepo.applyEvent db envelope,
    fun db => .ok (SessionRepo.applyEvent db envelope),
    fun db => AgentClaimRepo.applyEvent db env.now envelope]

theorem projectors_eq : projectors env envelope = sharedProjectors env envelope ++
    [fun db => .ok (documents envelope db)] := rfl

theorem handlerProjectors_eq : Projections.projectors env envelope = sharedProjectors env envelope ++
    [fun db => .ok (applyEvent db envelope), fun db => .ok (Projections.documents envelope db),
      handoffs envelope, rules envelope, fun db => .ok (EvidenceRepo.applyEvent db envelope),
      fun db => ArtifactRepo.applyEvent db env envelope] := rfl

variable {step : Database → Result Database} {tasks : Tasks} {answered : Bool} {state state' : Database × Profiles}
  {items : List (Env × EventEnvelope)} {list : List (EventEnvelope × Option Fault)}
  {outcome : Except CoreError (List Taken)} {push : Push}

theorem sharedProjectors_keepsRest (hStep : step ∈ sharedProjectors env envelope)
    (h : step db = .ok db') : KeepsRest db db' := by
  have hFirst : step ∈ (Projections.projectors env envelope).take 7 := hStep
  obtain ⟨_, hEarly, hWrote⟩ := Projections.exists_wrote_take hFirst h
  cases hWrote with
  | leases | documents | handoffs | rules | evidence | artifacts => exact absurd hEarly (by decide)
  | _ => exact ⟨rfl, rfl, rfl, rfl, rfl, rfl, rfl, rfl, rfl⟩

theorem sharedProjectors_ok (hSent : guardedReplicaEvent envelope.payload = false)
    (hTasks : TaskRepo.applyEvent db.tasks env envelope = .ok tasks) :
    ∃ middle, inTurn (sharedProjectors env envelope) db = (.ok (), middle) := by
  have hNote : ∀ db, ∃ db', RunNoteRepo.applyEvent db envelope = .ok db' := by
    intro db
    unfold RunNoteRepo.applyEvent
    split
    · rename_i hPayload
      rw [hPayload] at hSent
      cases hSent
    · exact ⟨_, rfl⟩
  have hClaim : ∀ db, ∃ db', AgentClaimRepo.applyEvent db env.now envelope = .ok db' := by
    intro db
    unfold AgentClaimRepo.applyEvent
    split
    · rename_i hPayload
      rw [hPayload] at hSent
      cases hSent
    all_goals exact ⟨_, rfl⟩
  have hTotal : ∀ step ∈ (sharedProjectors env envelope).tail, ∀ db, True → ∃ db', step db = .ok db' ∧ True := by
    intro step hStep db _
    simp only [sharedProjectors, tail_cons, mem_cons, not_mem_nil, or_false] at hStep
    rcases hStep with rfl | rfl | rfl | rfl | rfl | rfl
    · exact ⟨_, rfl, trivial⟩
    · exact ⟨_, rfl, trivial⟩
    · exact ⟨_, rfl, trivial⟩
    · obtain ⟨db', hOk⟩ := hNote db
      exact ⟨db', hOk, trivial⟩
    · exact ⟨_, rfl, trivial⟩
    · obtain ⟨db', hOk⟩ := hClaim db
      exact ⟨db', hOk, trivial⟩
  obtain ⟨middle, hRun, _⟩ := inTurn_total (s := { db with tasks := tasks }) hTotal trivial
  refine ⟨middle, ?_⟩
  have hFirst : Projections.tasks env envelope db = .ok { db with tasks := tasks } := by
    rw [Projections.tasks, hTasks]
    rfl
  rw [sharedProjectors, inTurn]
  dsimp only
  rw [hFirst]
  exact hRun

/-- Where the projections left out would write nothing, the endpoint does with an
event what the handler does. -/
theorem applyPersistedEvent_follows (hSent : guardedReplicaEvent envelope.payload = false)
    (hTasks : TaskRepo.applyEvent db.tasks env envelope = .ok tasks) (hRest : LeavesRest db env envelope) :
    ∃ after, applyPersistedEvent env envelope db = (.ok (), after) ∧
      inTurn (Projections.projectors env envelope) db = (.ok (), after) := by
  obtain ⟨middle, hShared⟩ := sharedProjectors_ok hSent hTasks
  have hMiddle : KeepsRest db middle :=
    inTurn_rel .refl (fun _ _ _ => .trans) (fun _ hStep _ _ => sharedProjectors_keepsRest hStep) hShared
  have hAfter : KeepsRest db (documents envelope middle) :=
    hMiddle.trans ⟨rfl, rfl, rfl, rfl, rfl, rfl, rfl, rfl, rfl⟩
  have hDocuments : Projections.documents envelope middle = documents envelope middle := by
    dsimp only [Projections.documents, documents]
    rw [hMiddle.projectSettings, hMiddle.workUnits, hRest.settings, hRest.workUnits, ← hMiddle.projectSettings,
      ← hMiddle.workUnits]
  have hHandoffs : handoffs envelope (documents envelope middle) = .ok (documents envelope middle) := by
    rw [handoffs, hAfter.handoffs, hRest.handoffs, ← hAfter.handoffs]
    rfl
  have hRules : rules envelope (documents envelope middle) = .ok (documents envelope middle) := by
    rw [rules, hAfter.rules, hRest.rules, ← hAfter.rules]
    rfl
  refine ⟨documents envelope middle, ?_, ?_⟩
  · rw [applyPersistedEvent, projectors_eq, inTurn_append, hShared]
    rfl
  · rw [handlerProjectors_eq, inTurn_append, hShared]
    dsimp only [inTurn]
    rw [hMiddle.leases hRest.leases, hDocuments, hHandoffs]
    dsimp only
    rw [hRules]
    dsimp only
    rw [hAfter.evidenceRows hRest.evidence, hAfter.artifactRows hRest.artifacts]
    rfl

/-- If the event is appended, the index over external keys refuses no row of it, and
no projection left out would write. -/
def TakenWholly (env : Env) (db : Database) (envelope : EventEnvelope) : Prop :=
  ∀ persisted appended, appendOn db { envelope with seq := 0 } = .ok (persisted, appended) →
    (∃ tasks, TaskRepo.applyEvent appended.tasks (env.part persisted.seq) persisted = .ok tasks) ∧
      LeavesRest appended (env.part persisted.seq) persisted

/-- Nothing fails between the append of an event and the last projection, and the
endpoint applies all that the handler would. -/
def Ingestible (env : Env) (fault : Option Fault) (db : Database) (envelope : EventEnvelope) : Prop :=
  match fault with
  | some .beforeAppend => True
  | some (.afterProjections n) => (projectors env envelope).length ≤ n ∧ TakenWholly env db envelope
  | none => TakenWholly env db envelope

variable {fault : Option Fault} {foldSignal}

variable {persisted : EventEnvelope} {appended : Database}

theorem handled_of_appended (hSent : guardedReplicaEvent envelope.payload = false)
    (hAppended : appendOn db { envelope with seq := 0 } = .ok (persisted, appended))
    (hTasks : ∃ tasks, TaskRepo.applyEvent appended.tasks (env.part persisted.seq) persisted = .ok tasks)
    (hRest : LeavesRest appended (env.part persisted.seq) persisted) :
    ∃ after, applyPersistedEvent (env.part persisted.seq) persisted appended = (.ok (), after) ∧
      ∀ profiles : Profiles, handled foldSignal (db, profiles) (env, envelope) = .ok (after, profiles) := by
  obtain ⟨tasks, hTasks⟩ := hTasks
  have hPersisted := (appendOn_ok hAppended).1
  have hSent' : guardedReplicaEvent persisted.payload = false := by rw [hPersisted]; exact hSent
  obtain ⟨after, hEndpoint, hHandler⟩ := applyPersistedEvent_follows hSent' hTasks hRest
  refine ⟨after, hEndpoint, fun profiles => ?_⟩
  have hApplied : applyEvents env [persisted] appended = (.ok (), after) := by
    rw [applyEvents, Projections.batchProjectors, flatMap_cons, flatMap_nil, append_nil]
    exact hHandler
  rw [handled, hAppended]
  dsimp only
  rw [hApplied, CapabilityProfileRepo.applyEvent, hRest.profiles]
  rfl

theorem takeInUnder_follows (hSent : guardedReplicaEvent envelope.payload = false)
    (h : Ingestible env fault db envelope) : (takeInUnder fault env envelope db).2 = db ∨ ∀ profiles : Profiles,
      handled foldSignal (db, profiles) (env, envelope) = .ok ((takeInUnder fault env envelope db).2, profiles) := by
  match fault with
  | none =>
    cases hTaken : takeInUnder none env envelope db with
    | mk outcome after =>
    cases takesIn hTaken with
    | duplicate | refused => exact .inl rfl
    | @appended persisted appended _ _ hNew hAppended hApplied =>
      obtain ⟨hTasks, hRest⟩ := h persisted appended hAppended
      obtain ⟨after', hEndpoint, hHandled⟩ := handled_of_appended hSent hAppended hTasks hRest
      cases hEndpoint.symm.trans hApplied
      exact .inr hHandled
  | some .beforeAppend => exact .inl rfl
  | some (.afterProjections n) =>
    cases hFound : db.events.find? envelope.id with
    | some existing =>
      left
      rw [takeInUnder, bind_eq]
      dsimp only [Stateful.get]
      rw [hFound]
      rfl
    | none =>
      cases hAppended : appendOn db { envelope with seq := 0 } with
      | error e =>
        left
        rw [takeInUnder, bind_eq]
        dsimp only [Stateful.get]
        rw [hFound]
        dsimp only
        rw [bind_eq]
        dsimp only [lift]
        rw [hAppended]
      | ok row =>
        obtain ⟨persisted, appended⟩ := row
        obtain ⟨hTasks, hRest⟩ := h.2 persisted appended hAppended
        obtain ⟨after, hEndpoint, hHandled⟩ := @handled_of_appended _ foldSignal _ _ _ _ _
          hSent hAppended hTasks hRest
        right
        have hAll : (projectors (env.part persisted.seq) persisted).take n =
            projectors (env.part persisted.seq) persisted := take_of_length_le h.1
        have hAfter : (takeInUnder (some (.afterProjections n)) env envelope db).2 = after := by
          rw [takeInUnder, bind_eq]
          dsimp only [Stateful.get]
          rw [hFound]
          dsimp only
          rw [bind_eq]
          dsimp only [lift]
          rw [hAppended]
          dsimp only
          rw [bind_eq]
          dsimp only [Stateful.set]
          rw [bind_eq, hAll]
          rw [applyPersistedEvent] at hEndpoint
          rw [hEndpoint]
          rfl
        rw [hAfter]
        exact hHandled

theorem projectors_sameLog (hStep : step ∈ projectors env envelope)
    (h : step db = .ok db') : SameLog db db' := by
  rw [projectors_eq] at hStep
  rcases mem_append.mp hStep with hShared | hDocuments
  · have hIn : step ∈ Projections.projectors env envelope := by
      rw [handlerProjectors_eq]
      exact mem_append_left _ hShared
    exact Projections.projectors_sameLog hIn h
  · cases mem_singleton.mp hDocuments
    cases h
    exact ⟨rfl, rfl, rfl⟩

theorem inTurn_sameLog {n : Nat} {outcome : Except CoreError Unit}
    (h : inTurn ((projectors env envelope).take n) db = (outcome, db')) : db'.events = db.events := by
  have hSame : SameLog db db' := inTurn_rel (fun _ => ⟨rfl, rfl, rfl⟩)
    (fun _ _ _ => SameLog.trans)
    (fun step hStep before after hOk => projectors_sameLog (mem_of_mem_take hStep) hOk) h
  exact hSame.1

structure Logs (id : EventId) (db : Database) (answered : Bool) (db' : Database) : Prop where
  grows : ∃ later, db'.events.rows = db.events.rows ++ later
  has : answered = true → db'.events.contains id = true

theorem logs_of_found {existing : EventEnvelope}
    (h : db.events.find? envelope.id = some existing) : Logs envelope.id db answered db :=
  ⟨⟨[], (append_nil _).symm⟩, fun _ => by rw [KeyedTable.contains, h]; rfl⟩

theorem logs_of_appended (hAppended : appendOn db { envelope with seq := 0 } = .ok (persisted, appended))
    (hSame : db'.events = appended.events) : Logs envelope.id db answered db' := by
  obtain ⟨hPersisted, _, hRows, _⟩ := appendOn_ok hAppended
  refine ⟨⟨[persisted], by rw [hSame, hRows]⟩, fun _ => contains_iff.mpr ⟨persisted, ?_, ?_⟩⟩
  · rw [hSame, ← mem_rows, hRows]
    exact mem_append_right _ (mem_singleton_self _)
  · rw [hPersisted]

theorem takeInUnder_logs {outcome : Except CoreError Taken} (h : takeInUnder fault env envelope db = (outcome, db')) :
    Logs envelope.id db outcome.isOk db' := by
  match fault with
  | none =>
    cases takesIn h with
    | duplicate hFound => exact logs_of_found hFound
    | refused hNew hRefused => exact ⟨⟨[], (append_nil _).symm⟩, nofun⟩
    | appended hNew hAppended hApplied =>
      rw [applyPersistedEvent, ← take_length (l := projectors _ _)] at hApplied
      exact logs_of_appended hAppended (inTurn_sameLog hApplied)
  | some .beforeAppend =>
    cases h
    exact ⟨⟨[], (append_nil _).symm⟩, nofun⟩
  | some (.afterProjections n) =>
    replace h := get_bind.mp h
    dsimp only at h
    cases hFound : db.events.find? envelope.id with
    | some existing =>
      rw [hFound] at h
      obtain ⟨rfl, rfl⟩ := pure_eq.mp h
      exact logs_of_found hFound
    | none =>
      rw [hFound] at h
      rcases lift_bind_cases h with ⟨e, rfl, _, rfl⟩ | ⟨⟨persisted, appended⟩, hAppended, h⟩
      · exact ⟨⟨[], (append_nil _).symm⟩, nofun⟩
      replace h := set_bind.mp h
      rcases bind_cases h with ⟨e, rfl, hApplied⟩ | ⟨_, applied, hApplied, h⟩
      · exact logs_of_appended hAppended (inTurn_sameLog hApplied)
      · obtain ⟨rfl, rfl⟩ := lift_eq.mp h
        exact logs_of_appended hAppended (inTurn_sameLog hApplied)

theorem handled_log {item : Env × EventEnvelope} (h : handled foldSignal state item = .ok state') :
    state'.1.events.rows.map EventEnvelope.id = state.1.events.rows.map EventEnvelope.id ++ [item.2.id] := by
  unfold handled at h
  split at h
  · cases h
  · rename_i persisted appended hAppended
    obtain ⟨hPersisted, _, hRows, _⟩ := appendOn_ok hAppended
    split at h
    · cases h
    · rename_i after hApplied
      cases h
      rw [(Projections.applyEvents_sameLog hApplied).1, hRows, map_append, hPersisted]
      rfl

theorem replay_log (h : Replay.replay (handled foldSignal) state items = .ok state') :
    state'.1.events.rows.map EventEnvelope.id =
      state.1.events.rows.map EventEnvelope.id ++ items.map fun item => item.2.id := by
  induction items generalizing state with
  | nil =>
    cases h
    exact (append_nil _).symm
  | cons item rest ih =>
    obtain ⟨next, hNext, hRest⟩ := Replay.replay_cons_ok.mp h
    rw [ih hRest, handled_log hNext, append_assoc]
    rfl

/-- A condition on every event that a push takes in, and on the state before it. -/
def EachIngestible (env : Env) : Database → List (EventEnvelope × Option Fault) → Prop
  | _, [] => True
  | db, (envelope, fault) :: rest => Ingestible env fault db envelope ∧
      ((takeInUnder fault env envelope db).1.isOk = true →
        EachIngestible env (takeInUnder fault env envelope db).2 rest)

/-- Pushes whose events are each taken in wholly. -/
def PushesIngestible : Database → List Push → Prop
  | _, [] => True
  | db, push :: rest =>
    (admissible push.canWriteTasks push.sent = .ok () → EachIngestible push.env db push.events) ∧
      PushesIngestible (ingest push db).2 rest

/-- The state is that of the handler after these events, in this order. -/
def HandledAs (foldSignal : Profiles → AgentId → String → CapabilitySignal → Timestamp → Profiles)
    (profiles : Profiles) (before after : Database) (items : List (Env × EventEnvelope)) : Prop :=
  Replay.replay (handled foldSignal) (before, profiles) items = .ok (after, profiles)

variable {profiles : Profiles}

theorem HandledAs.append {first second third : Database} {later : List (Env × EventEnvelope)}
    (h : HandledAs foldSignal profiles first second items) (h' : HandledAs foldSignal profiles second third later) :
    HandledAs foldSignal profiles first third (items ++ later) :=
  Replay.replay_append_ok.mpr ⟨_, h, h'⟩

theorem takeAllUnder_follows (hSent : ∀ envelope ∈ list.map Prod.fst, guardedReplicaEvent envelope.payload = false)
    (h : EachIngestible env db list) : ∃ items, (∀ item ∈ items, item.1 = env ∧ item.2 ∈ list.map Prod.fst) ∧
      HandledAs foldSignal profiles db (takeAllUnder env list db).2 items := by
  induction list generalizing db with
  | nil => exact ⟨[], fun _ hMem => absurd hMem not_mem_nil, rfl⟩
  | cons entry rest ih =>
    obtain ⟨envelope, fault⟩ := entry
    obtain ⟨hFirst, hRest⟩ := forall_mem_cons.mp hSent
    obtain ⟨hHere, hLater⟩ := h
    have hStep := @takeInUnder_follows Profiles foldSignal _ _ db _ hFirst hHere
    cases hTaken : takeInUnder fault env envelope db with
    | mk outcome middle =>
    rw [hTaken] at hStep hLater
    have hItems : ∃ items : List (Env × EventEnvelope), (∀ item ∈ items, item.1 = env ∧ item.2 = envelope) ∧
        HandledAs foldSignal profiles db middle items := by
      rcases hStep with rfl | hHandled
      · exact ⟨[], fun _ hMem => absurd hMem not_mem_nil, rfl⟩
      · refine ⟨[(env, envelope)], fun item hMem => ?_, ?_⟩
        · cases mem_singleton.mp hMem
          exact ⟨rfl, rfl⟩
        · exact Replay.replay_cons_ok.mpr ⟨_, hHandled profiles, rfl⟩
    obtain ⟨items, hItems, hHandled⟩ := hItems
    have hItems' : ∀ item ∈ items, item.1 = env ∧ item.2 ∈ ((envelope, fault) :: rest).map Prod.fst :=
      fun item hMem => ⟨(hItems item hMem).1, (hItems item hMem).2 ▸ mem_cons_self⟩
    rw [takeAllUnder, bind_eq, hTaken]
    cases outcome with
    | error e => exact ⟨items, hItems', hHandled⟩
    | ok taken =>
      obtain ⟨later, hMem, hHandled'⟩ := ih hRest (hLater rfl)
      refine ⟨items ++ later, fun item hIn => ?_, ?_⟩
      · rcases mem_append.mp hIn with hIn | hIn
        · exact hItems' item hIn
        · exact ⟨(hMem item hIn).1, mem_cons_of_mem _ (hMem item hIn).2⟩
      · dsimp only
        rw [bind_eq]
        cases hAll : takeAllUnder env rest middle with
        | mk outcome last =>
        rw [hAll] at hHandled'
        cases outcome with
        | error e => exact hHandled.append hHandled'
        | ok all => exact hHandled.append hHandled'

theorem takeAllUnder_logs (h : takeAllUnder env list db = (outcome, db')) :
    (∃ later, db'.events.rows = db.events.rows ++ later) ∧
      (outcome.isOk = true → ∀ envelope ∈ list.map Prod.fst, db'.events.contains envelope.id = true) := by
  induction list generalizing db outcome with
  | nil =>
    obtain ⟨_, rfl⟩ := pure_eq.mp h
    exact ⟨⟨[], (append_nil _).symm⟩, fun _ _ hMem => absurd hMem not_mem_nil⟩
  | cons entry rest ih =>
    obtain ⟨envelope, fault⟩ := entry
    rcases bind_cases h with ⟨e, rfl, hTaken⟩ | ⟨taken, middle, hTaken, h⟩
    · exact ⟨(takeInUnder_logs hTaken).grows, nofun⟩
    obtain ⟨⟨first, hFirst⟩, hHas⟩ := takeInUnder_logs hTaken
    have hRest : ∃ outcome', takeAllUnder env rest middle = (outcome', db') ∧
        (outcome.isOk = true → outcome'.isOk = true) := by
      rcases bind_cases h with ⟨e, rfl, hRest⟩ | ⟨all, last, hRest, h⟩
      · exact ⟨_, hRest, fun hOk => hOk⟩
      · obtain ⟨rfl, rfl⟩ := pure_eq.mp h
        exact ⟨_, hRest, fun _ => rfl⟩
    obtain ⟨outcome', hRest, hOk⟩ := hRest
    obtain ⟨⟨later, hLater⟩, hAll⟩ := ih hRest
    refine ⟨⟨first ++ later, by rw [hLater, hFirst, append_assoc]⟩, fun hAnswered => ?_⟩
    refine forall_mem_cons.mpr ⟨?_, hAll (hOk hAnswered)⟩
    obtain ⟨row, hRow, hId⟩ := contains_iff.mp (hHas rfl)
    refine contains_iff.mpr ⟨row, ?_, hId⟩
    rw [← mem_rows, hLater]
    exact mem_append_left _ (mem_rows.mpr hRow)

theorem ingest_follows
    (h : admissible push.canWriteTasks push.sent = .ok () → EachIngestible push.env db push.events) :
    ∃ items, (∀ item ∈ items, item.1 = push.env ∧ item.2 ∈ push.sent) ∧
      HandledAs foldSignal profiles db (ingest push db).2 items := by
  rw [ingest, bind_eq]
  dsimp only [lift]
  cases hAdmitted : admissible push.canWriteTasks push.sent with
  | error e => exact ⟨[], fun _ hMem => absurd hMem not_mem_nil, rfl⟩
  | ok u => exact takeAllUnder_follows (sent_of_admissible hAdmitted) (h hAdmitted)

theorem ingest_logs (h : ingest push db = (outcome, db'))
    (hAnswered : outcome.isOk = true) : ∀ envelope ∈ push.sent, db'.events.contains envelope.id = true := by
  rcases bind_cases h with ⟨e, rfl, _⟩ | ⟨u, middle, hAdmitted, h⟩
  · cases hAnswered
  · exact (takeAllUnder_logs h).2 hAnswered

/-- What pushes leave is what the handler makes of the events that they appended, each
of them once and in the order of the log. -/
def IngestedAs (foldSignal : Profiles → AgentId → String → CapabilitySignal → Timestamp → Profiles)
    (profiles : Profiles) (before : Database) (pushes : List Push) (after : Database) : Prop :=
  ∃ items : List (Env × EventEnvelope),
    (∀ item ∈ items, ∃ push ∈ pushes, item.1 = push.env ∧ item.2 ∈ push.sent) ∧
    after.events.rows.map EventEnvelope.id = before.events.rows.map EventEnvelope.id ++ (items.map fun item => item.2.id) ∧
    (items.map fun item => item.2.id).Nodup ∧ HandledAs foldSignal profiles before after items

/-- Pushes that are taken in wholly leave what the handler would have left, after each
of them, and all events of a push that is answered are in the log. -/
theorem pushes_equal_handling {pushes : List Push} (hMeets : PushesIngestible db pushes) :
    (∀ earlier later, pushes = earlier ++ later →
      IngestedAs foldSignal profiles db earlier (ingestAll db earlier)) ∧
    ∀ earlier push later, pushes = earlier ++ push :: later → (ingest push (ingestAll db earlier)).1.isOk = true →
      ∀ envelope ∈ push.sent, (ingestAll db (earlier ++ [push])).events.contains envelope.id = true := by
  have hRun : ∀ (earlier : List Push) db later, PushesIngestible db (earlier ++ later) →
      ∃ items : List (Env × EventEnvelope), (∀ item ∈ items, ∃ push ∈ earlier, item.1 = push.env ∧ item.2 ∈ push.sent) ∧
        HandledAs foldSignal profiles db (ingestAll db earlier) items := by
    intro earlier
    induction earlier with
    | nil => exact fun _ _ _ => ⟨[], fun _ hMem => absurd hMem not_mem_nil, rfl⟩
    | cons push rest ih =>
      intro db later hMeets
      obtain ⟨first, hFirst, hHandled⟩ := ingest_follows hMeets.1
      obtain ⟨items, hItems, hHandled'⟩ := ih _ later hMeets.2
      refine ⟨first ++ items, fun item hMem => ?_, hHandled.append hHandled'⟩
      rcases mem_append.mp hMem with hMem | hMem
      · exact ⟨push, mem_cons_self, hFirst item hMem⟩
      · obtain ⟨other, hOther, hItem⟩ := hItems item hMem
        exact ⟨other, mem_cons_of_mem _ hOther, hItem⟩
  constructor
  · rintro earlier later rfl
    obtain ⟨items, hItems, hHandled⟩ := hRun earlier db later hMeets
    have hLog := replay_log hHandled
    have hDistinct := (ingestAll db earlier).events.nodup
    rw [hLog] at hDistinct
    exact ⟨items, hItems, hLog, (nodup_append.mp hDistinct).2.1, hHandled⟩
  · rintro earlier push later rfl hAnswered envelope hMem
    rw [ingestAll, foldl_append]
    exact ingest_logs rfl hAnswered envelope hMem

private def replicaEvent (id : EventId) (payload : Event) : EventEnvelope := ⟨id, 0, 0, .anyUser, none, 0, payload⟩

private def created : EventEnvelope := replicaEvent ⟨1⟩ (.task (.taskCreated { NewTask.new "task" with id := some ⟨7⟩ }))

private def deleted : EventEnvelope := replicaEvent ⟨2⟩ (.task (.taskDeleted ⟨7⟩))

/-- A push whose response is lost, and its retry with one more event. -/
private def retriedPushes : List Push :=
  [⟨Server.nthEnv 0, true, [(created, some (.afterProjections 8))]⟩,
    ⟨Server.nthEnv 1, true, [(created, none), (deleted, none)]⟩]

private def noSignals (_ : Unit) (_ : AgentId) (_ : String) (_ : CapabilitySignal) (_ : Timestamp) : Unit := ()

theorem pushes_equal_handling_retried :
    IngestedAs noSignals () Database.empty retriedPushes (ingestAll Database.empty retriedPushes) := by
  have hCreated : TakenWholly (Server.nthEnv 0) Database.empty created := by
    intro persisted appended hAppended
    obtain ⟨rfl, _⟩ := appendOn_ok hAppended
    exact ⟨⟨_, rfl⟩, leavesRest_of_staysInside rfl⟩
  have hAgain : ∀ env, TakenWholly env (ingestAll Database.empty (retriedPushes.take 1)) created := by
    intro env persisted appended hAppended
    have hFound : ((ingestAll Database.empty (retriedPushes.take 1)).events.find? created.id).isSome = true := by
      decide +kernel
    rw [(appendOn_ok hAppended).2.1] at hFound
    cases hFound
  have hDeleted : ∀ env db, TakenWholly env db deleted := by
    intro env db persisted appended hAppended
    obtain ⟨rfl, _⟩ := appendOn_ok hAppended
    exact ⟨⟨_, rfl⟩, leavesRest_of_staysInside rfl⟩
  have hMeets : PushesIngestible Database.empty retriedPushes :=
    ⟨fun _ => ⟨⟨by decide, hCreated⟩, fun _ => trivial⟩,
      fun _ => ⟨hAgain _, fun _ => ⟨hDeleted _ _, fun _ => trivial⟩⟩, trivial⟩
  exact (pushes_equal_handling hMeets).1 retriedPushes [] (append_nil _).symm

private def settingsChanged : EventEnvelope :=
  replicaEvent ⟨1⟩ (.project (.projectSettingsChanged ⟨3⟩ ⟨false, false⟩ 0 none none))

private def settingsPush : Push := ⟨Server.nthEnv 0, true, [(settingsChanged, none)]⟩

/-- The endpoint answers the push and leaves the settings as they were. -/
theorem pushed_settings_unapplied : (ingest settingsPush Database.empty).1.isOk = true ∧
    ¬IngestedAs noSignals () Database.empty [settingsPush] (ingestAll Database.empty [settingsPush]) := by
  refine ⟨by decide +kernel, ?_⟩
  rintro ⟨items, hItems, hLog, _, hHandled⟩
  have hOne : items.length = 1 := by
    have hLength := congrArg List.length hLog
    rw [length_append, length_map, length_map, length_map] at hLength
    have hAppended : (ingestAll Database.empty [settingsPush]).events.rows.length = 1 := by decide +kernel
    have hEmpty : Database.empty.events.rows.length = 0 := rfl
    omega
  obtain ⟨item, rfl⟩ := length_eq_one_iff.mp hOne
  obtain ⟨push, hPush, hEnv, hSent⟩ := hItems item (mem_singleton_self _)
  obtain rfl := mem_singleton.mp hPush
  obtain ⟨env, envelope⟩ := item
  obtain rfl : env = settingsPush.env := hEnv
  obtain rfl : envelope = settingsChanged := mem_singleton.mp hSent
  have hHandler : (Replay.replay (handled noSignals) (Database.empty, ()) [(settingsPush.env, settingsChanged)]).toOption.map
      (fun state => state.1.projectSettings.rows.length) = some 1 := by decide +kernel
  rw [hHandled] at hHandler
  have hServed : (ingestAll Database.empty [settingsPush]).projectSettings.rows.length = 0 := by decide +kernel
  exact absurd (hServed.symm.trans (Option.some.inj hHandler)) (by decide)

end ReplicaEvents
end Daruma
