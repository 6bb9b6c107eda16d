import Daruma.Core.CommandEffects

/-! The endpoint that takes events from another replica: events that are not in the
log yet are appended one by one, and each is applied before the next is looked at. -/
namespace Daruma

open Stateful

namespace ReplicaEvents

def guardedReplicaEvent : Event → Bool
  | .run (.runStarted _) | .run (.runStepStarted ..) | .run (.runStepFinished ..) | .run (.runCompleted ..)
  | .run (.runFailed ..) | .run (.runAborted ..) | .run (.runUnresponsive ..) | .run (.runStale ..)
  | .run (.runNoteAppended ..) | .claim (.agentClaimed ..) | .claim (.agentReleased ..) | .plan (.planArchived ..)
  | .plan (.planDeleted ..) => true
  | .plan (.planStatusChanged _ _ toStatus) => toStatus = .completed || toStatus = .abandoned
  | _ => false

def documents (envelope : EventEnvelope) (db : Database) : Database :=
  let written := DocumentRepo.applyEvent db.documents envelope
  { db with
    documents := written
    documentVersions := DocumentRepo.recordVersion db.documentVersions db.documents written envelope }

/-- The projections that the endpoint applies. Those of relations and of external
references take no event. -/
def projectors (env : Env) (envelope : EventEnvelope) : List (Database → Result Database) :=
  [Projections.tasks env envelope,
    fun db => .ok (Projections.records envelope db),
    fun db => .ok (PlanRepo.applyEvent db env envelope),
    fun db => .ok (RunRepo.applyEvent db envelope),
    fun db => RunNoteRepo.applyEvent db envelope,
    fun db => .ok (SessionRepo.applyEvent db envelope),
    fun db => AgentClaimRepo.applyEvent db env.now envelope,
    fun db => .ok (documents envelope db)]

def applyPersistedEvent (env : Env) (envelope : EventEnvelope) : Serving Unit :=
  Stateful.inTurn (projectors env envelope)

/-- The row that an event has in the log, and whether it had it before. -/
structure Taken where
  envelope : EventEnvelope
  isDuplicate : Bool

/-- Take one event in. The log decides whether it is a duplicate. -/
def takeIn (env : Env) (envelope : EventEnvelope) : Serving Taken := do
  let db ← Stateful.get
  match db.events.find? envelope.id with
  | some existing => pure ⟨existing, true⟩
  | none => do
    let (persisted, appended) ← Stateful.lift (appendOn db { envelope with seq := 0 })
    Stateful.set appended
    applyPersistedEvent (env.part persisted.seq) persisted
    pure ⟨persisted, false⟩

/-- The first event that cannot be taken in ends the request; those before it stay. -/
def takeAll (env : Env) : List EventEnvelope → Serving (List Taken)
  | [] => pure []
  | envelope :: rest => do
    let first ← takeIn env envelope
    let later ← takeAll env rest
    pure (first :: later)

def admissible (canWriteTasks : Bool) (events : List EventEnvelope) : Result Unit := do
  Outcome.ensure canWriteTasks (.forbidden "token is missing capability: task:write")
  Outcome.ensure (!events.isEmpty) (.validation "events must not be empty")
  Outcome.ensure (events.length ≤ 1000) (.validation "events batch must contain at most 1000 events")
  Outcome.ensure (!events.any fun envelope => guardedReplicaEvent envelope.payload)
    (.forbidden "run, claim, and plan-terminal events require a guarded canonical endpoint")

def appendReplicaEvents (env : Env) (canWriteTasks : Bool) (events : List EventEnvelope) : Serving (List Taken) := do
  Stateful.lift (admissible canWriteTasks events)
  takeAll env events

variable {env : Env} {envelope : EventEnvelope} {db db' : Database} {events : List EventEnvelope}

inductive TakesIn (env : Env) (envelope : EventEnvelope) (db : Database) : Except CoreError Taken → Database → Prop where
  | duplicate {existing : EventEnvelope} (hFound : db.events.find? envelope.id = some existing) :
      TakesIn env envelope db (.ok ⟨existing, true⟩) db
  | refused {e : CoreError} (hNew : db.events.find? envelope.id = none)
      (hRefused : appendOn db { envelope with seq := 0 } = .error e) : TakesIn env envelope db (.error e) db
  /-- It is in the log, whether or not all projections take it. -/
  | appended {persisted : EventEnvelope} {appended after : Database} {outcome : Except CoreError Unit}
      (hNew : db.events.find? envelope.id = none)
      (hAppended : appendOn db { envelope with seq := 0 } = .ok (persisted, appended))
      (hApplied : applyPersistedEvent (env.part persisted.seq) persisted appended = (outcome, after)) :
      TakesIn env envelope db (outcome.map fun _ => ⟨persisted, false⟩) after

theorem takesIn {outcome : Except CoreError Taken} (h : takeIn env envelope db = (outcome, db')) :
    TakesIn env envelope db outcome db' := by
  replace h := get_bind.mp h
  dsimp only at h
  cases hFound : db.events.find? envelope.id with
  | some existing =>
    rw [hFound] at h
    obtain ⟨rfl, rfl⟩ := pure_eq.mp h
    exact .duplicate hFound
  | none =>
    rw [hFound] at h
    rcases lift_bind_cases h with ⟨e, rfl, hRefused, rfl⟩ | ⟨⟨persisted, appended⟩, hAppended, h⟩
    · exact .refused hFound hRefused
    replace h := set_bind.mp h
    rcases bind_cases h with ⟨e, rfl, hApplied⟩ | ⟨_, applied, hApplied, h⟩
    · exact @TakesIn.appended _ _ _ _ _ _ (.error e) hFound hAppended hApplied
    · obtain ⟨rfl, rfl⟩ := pure_eq.mp h
      exact @TakesIn.appended _ _ _ _ _ _ (.ok ()) hFound hAppended hApplied

theorem sent_of_admissible {canWriteTasks : Bool} (h : admissible canWriteTasks events = .ok ()) :
    ∀ envelope ∈ events, guardedReplicaEvent envelope.payload = false := by
  obtain ⟨_, _, h⟩ := Outcome.bind_eq_ok.mp h
  obtain ⟨_, _, h⟩ := Outcome.bind_eq_ok.mp h
  obtain ⟨_, _, h⟩ := Outcome.bind_eq_ok.mp h
  have hNone := Outcome.ensure_eq_ok.mp h
  rw [Bool.not_eq_true'] at hNone
  exact fun envelope hMem => Bool.eq_false_iff.mpr (List.any_eq_false.mp hNone envelope hMem)

/-- A condition on every event that a request takes in, and on the state before it. -/
def EachTaken (env : Env) (condition : Database → EventEnvelope → Prop) : Database → List EventEnvelope → Prop
  | _, [] => True
  | db, envelope :: rest => condition db envelope ∧
      ((takeIn env envelope db).1.isOk = true → EachTaken env condition (takeIn env envelope db).2 rest)

theorem EachTaken.iff {left right : Database → EventEnvelope → Prop}
    (h : ∀ envelope ∈ events, ∀ db, left db envelope ↔ right db envelope) :
    EachTaken env left db events ↔ EachTaken env right db events := by
  induction events generalizing db with
  | nil => exact Iff.rfl
  | cons envelope rest ih =>
    obtain ⟨hFirst, hRest⟩ := List.forall_mem_cons.mp h
    unfold EachTaken
    rw [hFirst db, ih hRest]

theorem EachTaken.keeps {holds : Database → EventEnvelope → Prop} {rel : Database → Database → Prop}
    (hRefl : ∀ db, rel db db) (hTrans : ∀ first second third, rel first second → rel second third → rel first third)
    (hRel : ∀ db envelope, holds db envelope → rel db (takeIn env envelope db).2) (h : EachTaken env holds db events) :
    rel db (takeAll env events db).2 := by
  induction events generalizing db with
  | nil => exact hRefl db
  | cons envelope rest ih =>
    obtain ⟨hFirst, hRest⟩ := h
    have hStep := hRel db envelope hFirst
    rw [takeAll, bind_eq]
    cases hTaken : takeIn env envelope db with
    | mk outcome middle =>
    rw [hTaken] at hStep hRest
    cases outcome with
    | error e => exact hStep
    | ok taken =>
      dsimp only
      rw [bind_eq]
      have hLater := ih (hRest rfl)
      cases hAll : takeAll env rest middle with
      | mk outcome last =>
      rw [hAll] at hLater
      cases outcome with
      | error e => exact hTrans _ _ _ hStep hLater
      | ok later => exact hTrans _ _ _ hStep hLater

end ReplicaEvents
end Daruma
