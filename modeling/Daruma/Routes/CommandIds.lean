import Daruma.Core.ErrorAtomicity
import Daruma.Core.StatusWrites
import Daruma.Storage.IdempotencyRepo
import Mathlib.Logic.Function.Basic

/-! Commands under a client's id. A request looks its id up, reserves it, is
dispatched and settles the reservation, in steps between which other requests with
the same id come. -/
namespace Daruma

open List
open IdempotencyRepo (lookup_some reserve_of_none complete_find? release_find?)

/-- How a command reaches the server: over HTTP under its `client_command_id`, or over
a WebSocket under its `client_event_id`. -/
inductive Door where
  | http | ws
  deriving DecidableEq

structure KeyedRequest where
  door : Door
  commandId : Nat
  caller : Caller
  command : Command
  actor : Actor

/-- What a client is told. The place in the log is that of the last event. -/
inductive CommandAnswer where
  | succeeded (last : Option (EventId × Nat))
  | replayed (eventId : EventId) (eventSeq : Nat)
  | inFlight
  | failed (e : CoreError)

/-- How far a request has come. It still looks so many times after the present one. -/
inductive CommandPhase where
  | looking (polls : Nat)
  | reserving (polls : Nat)
  | polling (polls : Nat)
  | owned
  | executed (outcome : Except CoreError (Option (EventId × Nat)))
  | answered (answer : CommandAnswer)
  | lost

namespace CommandPhase

/-- Between the reservation and its settlement. -/
def holding : CommandPhase → Bool
  | .owned | .executed _ => true
  | _ => false

/-- The place in the log that a client was told. -/
def reports : CommandPhase → Option (EventId × Nat)
  | .answered (.succeeded last) => last
  | .answered (.replayed eventId eventSeq) => some (eventId, eventSeq)
  | _ => none

end CommandPhase

/-- The server, the requests that came, and what each of those that were dispatched
left in the log, in the order of their dispatch. -/
structure CommandTraffic (R : Type) where
  db : Database
  idempotency : IdempotencyRepo
  phases : R → Option CommandPhase
  executions : List (R × List EventEnvelope)

/-- One step of a request or of the server. -/
inductive TrafficOp (R : Type) where
  | arrive (r : R)
  | lookup (r : R)
  | reserve (r : R) (now : Timestamp) (others : Nat → Bool)
  /-- A lookup or a reservation fails, or a check before the dispatch refuses. -/
  | refuse (r : R) (e : CoreError)
  | dispatch (r : R) (env : Env)
  /-- Settle the reservation. It may fail to be stored. -/
  | settle (r : R) (stored : Bool)
  /-- The request is dropped before it is answered. -/
  | lose (r : R)
  | restart (others : Nat → Bool)
  | cleanup (cutoff : Timestamp)
  /-- The server does something else. -/
  | elsewhere (call : Call)

namespace CommandTraffic

variable {R : Type} [DecidableEq R]

def start (db : Database) : CommandTraffic R := ⟨db, .new, fun _ => none, []⟩

def enter (state : CommandTraffic R) (r : R) (phase : CommandPhase) : CommandTraffic R :=
  { state with phases := Function.update state.phases r (some phase) }

/-- The number of lookups of a request over HTTP that finds its id reserved. -/
def clientCommandIdWaitPolls : Nat := 100

/-- The same for a dispatch over a WebSocket, after its reservation failed. -/
def wsPolls : Nat := 200

variable (config : Config) (requests : R → KeyedRequest)

def lookup (state : CommandTraffic R) (r : R) : CommandTraffic R :=
  match state.phases r with
  | some (.looking polls) =>
    match state.idempotency.lookup (requests r).commandId with
    | some (eventId, eventSeq) => state.enter r (.answered (.replayed eventId eventSeq))
    | none => state.enter r (.reserving polls)
  | some (.polling polls) =>
    match state.idempotency.lookup (requests r).commandId with
    | some (eventId, eventSeq) => state.enter r (.answered (.replayed eventId eventSeq))
    | none => state.enter r (if polls = 0 then .answered .inFlight else .polling (polls - 1))
  | _ => state

/-- A request that loses over HTTP looks again; over a WebSocket it only waits for
the answer of another. -/
def lostTo (door : Door) (polls : Nat) : CommandPhase :=
  match door with
  | .http => if polls = 0 then .answered .inFlight else .looking (polls - 1)
  | .ws => .polling (wsPolls - 1)

def reserve (state : CommandTraffic R) (r : R) (now : Timestamp) (others : Nat → Bool) : CommandTraffic R :=
  match state.phases r with
  | some (.reserving polls) =>
    let reserved := state.idempotency.reserve (requests r).commandId now others
    { state.enter r (if reserved.1 then .owned else lostTo (requests r).door polls) with idempotency := reserved.2 }
  | _ => state

/-- Over HTTP there is a check between the reservation and the dispatch. -/
def refuse (state : CommandTraffic R) (r : R) (e : CoreError) : CommandTraffic R :=
  match state.phases r with
  | some (.looking _) | some (.reserving _) | some (.polling _) => state.enter r (.answered (.failed e))
  | some .owned => if (requests r).door = .http then state.enter r (.executed (.error e)) else state
  | _ => state

/-- What the handler answers and leaves. -/
def handled (state : CommandTraffic R) (r : R) (env : Env) : Except CoreError DispatchOutcome × Database :=
  Handler.handleWithRunOwner config env (requests r).caller (requests r).command (requests r).actor state.db

def outcomeOf (state : CommandTraffic R) (r : R) (env : Env) : Except CoreError (Option (EventId × Nat)) :=
  (handled config requests state r env).1.map fun answer => answer.events.getLast?.map fun last => (last.id, last.seq)

def appendedBy (state : CommandTraffic R) (r : R) (env : Env) : List EventEnvelope :=
  (handled config requests state r env).2.events.rows.drop state.db.events.rows.length

def dispatch (state : CommandTraffic R) (r : R) (env : Env) : CommandTraffic R :=
  match state.phases r with
  | some .owned => { state.enter r (.executed (outcomeOf config requests state r env)) with
      db := (handled config requests state r env).2
      executions := state.executions ++ [(r, appendedBy config requests state r env)] }
  | _ => state

def answerOf : Except CoreError (Option (EventId × Nat)) → CommandAnswer
  | .ok last => .succeeded last
  | .error e => .failed e

/-- Over HTTP a reservation without a result is released; over a WebSocket it stays. -/
def settled (door : Door) (id : Nat) (outcome : Except CoreError (Option (EventId × Nat))) (repo : IdempotencyRepo) :
    IdempotencyRepo :=
  match outcome, door with
  | .ok (some (eventId, eventSeq)), _ => repo.complete id eventId eventSeq
  | _, .http => repo.release id
  | _, .ws => repo

def settle (state : CommandTraffic R) (r : R) (stored : Bool) : CommandTraffic R :=
  match state.phases r with
  | some (.executed outcome) => { state.enter r (.answered (answerOf outcome)) with
      idempotency := if stored then settled (requests r).door (requests r).commandId outcome state.idempotency
        else state.idempotency }
  | _ => state

/-- A request that is not answered will not be. -/
def dropped : Option CommandPhase → Option CommandPhase
  | none => none
  | some (.answered answer) => some (.answered answer)
  | some _ => some .lost

def step (state : CommandTraffic R) : TrafficOp R → CommandTraffic R
  | .arrive r =>
    match state.phases r with
    | none => state.enter r (.looking (if (requests r).door = .http then clientCommandIdWaitPolls else 0))
    | some _ => state
  | .lookup r => lookup requests state r
  | .reserve r now others => reserve requests state r now others
  | .refuse r e => refuse requests state r e
  | .dispatch r env => dispatch config requests state r env
  | .settle r stored => settle requests state r stored
  | .lose r => { state with phases := Function.update state.phases r (dropped (state.phases r)) }
  | .restart others => { state with
      idempotency := state.idempotency.warm others
      phases := fun r => dropped (state.phases r) }
  | .cleanup cutoff => { state with idempotency := state.idempotency.cleanupBefore cutoff }
  | .elsewhere call => { state with db := Server.serve config state.db call }

def run (state : CommandTraffic R) (ops : List (TrafficOp R)) : CommandTraffic R :=
  ops.foldl (step config requests) state

/-- Nothing but rules that fired. -/
def Silent (events : List EventEnvelope) : Prop :=
  ∀ envelope ∈ events, Handler.Event.isRuleFired envelope.payload = true

variable {config} {requests} {state : CommandTraffic R}

def Holds (state : CommandTraffic R) (r : R) : Prop := ∃ phase, state.phases r = some phase ∧ phase.holding = true

def Appended (requests : R → KeyedRequest) (state : CommandTraffic R) (id : Nat) : Prop :=
  ∃ entry ∈ state.executions, (requests entry.1).commandId = id ∧ entry.2 ≠ []

def Recorded (requests : R → KeyedRequest) (executions : List (R × List EventEnvelope)) (id : Nat)
    (last : EventId × Nat) : Prop :=
  ∃ before r events after, executions = before ++ (r, events) :: after ∧ (requests r).commandId = id ∧
    (∃ envelope ∈ events, (envelope.id, envelope.seq) = last) ∧ ∀ entry ∈ after, (requests entry.1).commandId ≠ id

/-- The invariant of the traffic. -/
structure Sound (requests : R → KeyedRequest) (state : CommandTraffic R) : Prop where
  once : state.executions.Pairwise fun first second =>
    (requests first.1).commandId = (requests second.1).commandId → Silent first.2
  held : ∀ r, state.Holds r → ∃ row,
    state.idempotency.rows.find? (requests r).commandId = some row ∧ row.serverEventSeq = 0
  single : ∀ r r', state.Holds r → state.Holds r' → (requests r).commandId = (requests r').commandId → r = r'
  unanswered : ∀ r, state.Holds r → ∀ r' phase last, state.phases r' = some phase → phase.reports = some last →
    (requests r').commandId ≠ (requests r).commandId
  owned : ∀ r, state.phases r = some .owned →
    ∀ entry ∈ state.executions, (requests entry.1).commandId = (requests r).commandId → Silent entry.2
  failed : ∀ r outcome, state.phases r = some (.executed outcome) → (requests r).door = .http →
    (∀ last, outcome ≠ .ok (some last)) →
    ∀ entry ∈ state.executions, (requests entry.1).commandId = (requests r).commandId → Silent entry.2
  executed : ∀ r last, state.phases r = some (.executed (.ok (some last))) →
    Recorded requests state.executions (requests r).commandId last
  filled : ∀ id row, state.idempotency.rows.find? id = some row → row.serverEventSeq ≠ 0 →
    Recorded requests state.executions id (row.serverEventId, row.serverEventSeq)
  reported : ∀ r phase last, state.phases r = some phase → phase.reports = some last →
    Recorded requests state.executions (requests r).commandId last ∧
      (state.idempotency.rows.find? (requests r).commandId).isSome = true
  free : ∀ id, state.idempotency.rows.find? id = none →
    ∀ entry ∈ state.executions, (requests entry.1).commandId = id → Silent entry.2
  stuck : ∀ id row, state.idempotency.rows.find? id = some row → row.serverEventSeq = 0 →
    (∃ r, state.Holds r ∧ (requests r).commandId = id) ∨ Appended requests state id

omit [DecidableEq R] in
theorem sound_start (db : Database) : Sound requests (start db) where
  once := List.Pairwise.nil
  held := nofun
  single := nofun
  unanswered := nofun
  owned := nofun
  failed := nofun
  executed := nofun
  filled := fun id row hRow => by cases hRow
  reported := nofun
  free := fun _ _ _ hMem => absurd hMem not_mem_nil
  stuck := fun id row hRow => by cases hRow

variable {r r' : R} {phase : CommandPhase} {repo : IdempotencyRepo} {last : EventId × Nat}
  {events : List EventEnvelope} {outcome : Except CoreError (Option (EventId × Nat))}

theorem enter_phases : (state.enter r phase).phases r' = if r' = r then some phase else state.phases r' :=
  Function.update_apply _ _ _ _

theorem enter_of_ne (h : r' ≠ r) : (state.enter r phase).phases r' = state.phases r' := by
  rw [enter_phases, if_neg h]

theorem enter_self : (state.enter r phase).phases r = some phase := by
  rw [enter_phases, if_pos rfl]

theorem holds_enter (h : (state.enter r phase).Holds r') :
    (r' = r ∧ phase.holding = true) ∨ (r' ≠ r ∧ state.Holds r') := by
  obtain ⟨phase', hPhase, hHolding⟩ := h
  by_cases hSame : r' = r
  · subst hSame
    cases enter_self.symm.trans hPhase
    exact .inl ⟨rfl, hHolding⟩
  · exact .inr ⟨hSame, phase', (enter_of_ne hSame).symm.trans hPhase, hHolding⟩

theorem holds_enter_of_ne (h : state.Holds r') (hOther : r' ≠ r) : (state.enter r phase).Holds r' := by
  obtain ⟨phase', hPhase, hHolding⟩ := h
  exact ⟨phase', (enter_of_ne hOther).trans hPhase, hHolding⟩

theorem enter_cases {phase' : CommandPhase} (h : (state.enter r phase).phases r' = some phase') :
    (r' = r ∧ phase' = phase) ∨ (r' ≠ r ∧ state.phases r' = some phase') := by
  by_cases hSame : r' = r
  · subst hSame
    cases enter_self.symm.trans h
    exact .inl ⟨rfl, rfl⟩
  · exact .inr ⟨hSame, (enter_of_ne hSame).symm.trans h⟩

omit [DecidableEq R] in
theorem Recorded.appended {id : Nat} {last : EventId × Nat} (h : Recorded requests state.executions id last) :
    Appended requests state id := by
  obtain ⟨before, r, events, after, hSplit, hId, ⟨envelope, hMem, _⟩, _⟩ := h
  refine ⟨(r, events), ?_, hId, fun hNone => ?_⟩
  · rw [hSplit]
    exact mem_append_right _ mem_cons_self
  · dsimp only at hNone
    rw [hNone] at hMem
    exact not_mem_nil hMem

variable (h : Sound requests state)

include h in
theorem Sound.enter_idle (hIdle : phase.holding = false)
    (hSays : phase.reports = none) (hLeaves : ¬state.Holds r ∨ Appended requests state (requests r).commandId) :
    Sound requests (state.enter r phase) := by
  have hHolds : ∀ r', (state.enter r phase).Holds r' → r' ≠ r ∧ state.Holds r' := fun r' hHolds =>
    (holds_enter hHolds).resolve_left fun hSelf => Bool.false_ne_true (hIdle.symm.trans hSelf.2)
  have hReports : ∀ r' phase' last, (state.enter r phase).phases r' = some phase' → phase'.reports = some last →
      state.phases r' = some phase' := by
    intro r' phase' last hPhase hLast
    rcases enter_cases hPhase with ⟨_, rfl⟩ | ⟨_, hBefore⟩
    · cases hSays.symm.trans hLast
    · exact hBefore
  have hBusy : ∀ r' phase', (state.enter r phase).phases r' = some phase' → phase'.holding = true →
      state.phases r' = some phase' := by
    intro r' phase' hPhase hHolding
    rcases enter_cases hPhase with ⟨_, rfl⟩ | ⟨_, hBefore⟩
    · cases hIdle.symm.trans hHolding
    · exact hBefore
  refine ⟨h.once, fun r' hr' => h.held r' (hHolds r' hr').2,
    fun r' r'' hr' hr'' => h.single r' r'' (hHolds r' hr').2 (hHolds r'' hr'').2,
    fun r' hr' r'' phase' last hPhase hLast =>
      h.unanswered r' (hHolds r' hr').2 r'' phase' last (hReports r'' phase' last hPhase hLast) hLast,
    fun r' hPhase => h.owned r' (hBusy r' _ hPhase rfl),
    fun r' outcome hPhase => h.failed r' outcome (hBusy r' _ hPhase rfl),
    fun r' last hPhase => h.executed r' last (hBusy r' _ hPhase rfl), h.filled,
    fun r' phase' last hPhase hLast => h.reported r' phase' last (hReports r' phase' last hPhase hLast) hLast, h.free,
    fun id row hRow hZero => ?_⟩
  rcases h.stuck id row hRow hZero with ⟨r', hr', hId⟩ | hAppended
  · by_cases hSame : r' = r
    · subst hSame
      rcases hLeaves with hNot | hAppended
      · exact absurd hr' hNot
      · exact .inr (hId ▸ hAppended)
    · exact .inl ⟨r', holds_enter_of_ne hr' hSame, hId⟩
  · exact .inr hAppended

include h in
omit [DecidableEq R] in
/-- Only the rows of the table count, not its filter. -/
theorem Sound.of_rows (hRows : repo.rows = state.idempotency.rows) :
    Sound requests { state with idempotency := repo } := by
  refine ⟨h.once, fun r hr => ?_, h.single, h.unanswered, h.owned, h.failed, h.executed, fun id row => ?_,
    fun r phase last hPhase hLast => ?_, fun id => ?_, fun id row => ?_⟩
  · dsimp only
    rw [hRows]
    exact h.held r hr
  · dsimp only
    rw [hRows]
    exact h.filled id row
  · dsimp only
    rw [hRows]
    exact h.reported r phase last hPhase hLast
  · dsimp only
    rw [hRows]
    exact h.free id
  · dsimp only
    rw [hRows]
    exact h.stuck id row

/-- A result that another request recorded. -/
theorem Sound.replay {r : R} {eventId : EventId} {eventSeq : Nat} (h : Sound requests state) (hIdle : ¬state.Holds r)
    (hFound : state.idempotency.lookup (requests r).commandId = some (eventId, eventSeq)) :
    Sound requests (state.enter r (.answered (.replayed eventId eventSeq))) := by
  obtain ⟨row, hRow, hFilled, rfl, rfl⟩ := lookup_some hFound
  have hHolds : ∀ r', (state.enter r (.answered (.replayed row.serverEventId row.serverEventSeq))).Holds r' →
      state.Holds r' := by
    intro r' hr'
    rcases holds_enter hr' with ⟨_, hNot⟩ | ⟨_, hBefore⟩
    · cases hNot
    · exact hBefore
  have hRecorded := h.filled _ row hRow hFilled
  refine ⟨h.once, fun r' hr' => h.held r' (hHolds r' hr'),
    fun r' r'' hr' hr'' => h.single r' r'' (hHolds r' hr') (hHolds r'' hr''),
    fun r' hr' r'' phase last hPhase hLast hSame => ?_, fun r' hPhase => ?_, fun r' outcome hPhase => ?_,
    fun r' last hPhase => ?_, h.filled, fun r' phase last hPhase hLast => ?_, h.free, fun id row' hRow' hZero => ?_⟩
  · rcases enter_cases hPhase with ⟨rfl, _⟩ | ⟨_, hBefore⟩
    · obtain ⟨reserved, hReserved, hZero⟩ := h.held r' (hHolds r' hr')
      rw [hSame] at hRow
      cases hReserved.symm.trans hRow
      exact hFilled hZero
    · exact h.unanswered r' (hHolds r' hr') r'' phase last hBefore hLast hSame
  · rcases enter_cases hPhase with ⟨_, hNot⟩ | ⟨_, hBefore⟩
    · cases hNot
    · exact h.owned r' hBefore
  · rcases enter_cases hPhase with ⟨_, hNot⟩ | ⟨_, hBefore⟩
    · cases hNot
    · exact h.failed r' outcome hBefore
  · rcases enter_cases hPhase with ⟨_, hNot⟩ | ⟨_, hBefore⟩
    · cases hNot
    · exact h.executed r' last hBefore
  · rcases enter_cases hPhase with ⟨rfl, rfl⟩ | ⟨_, hBefore⟩
    · cases hLast
      exact ⟨hRecorded, Option.isSome_iff_exists.mpr ⟨row, hRow⟩⟩
    · exact h.reported r' phase last hBefore hLast
  · rcases h.stuck id row' hRow' hZero with ⟨r', hr', hId⟩ | hAppended
    · have hOther : r' ≠ r := fun hSame => hIdle (hSame ▸ hr')
      exact .inl ⟨r', holds_enter_of_ne hr' hOther, hId⟩
    · exact .inr hAppended

theorem Sound.reserve {r : R} {repo : IdempotencyRepo} {row : ProcessedCommand} (h : Sound requests state)
    (hIdle : ¬state.Holds r) (hFree : state.idempotency.rows.find? (requests r).commandId = none)
    (hZero : row.serverEventSeq = 0) (hRows : ∀ id, repo.rows.find? id =
      if (requests r).commandId = id then some row else state.idempotency.rows.find? id) :
    Sound requests { state.enter r .owned with idempotency := repo } := by
  have hOld : ∀ r', { state.enter r .owned with idempotency := repo }.Holds r' → r' ≠ r →
      state.Holds r' ∧ (requests r').commandId ≠ (requests r).commandId := by
    intro r' hr' hOther
    have hBefore := (holds_enter hr').resolve_left fun hSelf => hOther hSelf.1
    refine ⟨hBefore.2, fun hSame => ?_⟩
    obtain ⟨reserved, hReserved, _⟩ := h.held r' hBefore.2
    rw [hSame] at hReserved
    cases hReserved.symm.trans hFree
  have hReports : ∀ r' phase last, (state.enter r .owned).phases r' = some phase → phase.reports = some last →
      state.phases r' = some phase ∧ (requests r').commandId ≠ (requests r).commandId := by
    intro r' phase last hPhase hLast
    rcases enter_cases hPhase with ⟨_, rfl⟩ | ⟨_, hBefore⟩
    · cases hLast
    · refine ⟨hBefore, fun hSame => ?_⟩
      have hSome := (h.reported r' phase last hBefore hLast).2
      rw [hSame, hFree] at hSome
      cases hSome
  have hKept : ∀ id, (requests r).commandId ≠ id → repo.rows.find? id = state.idempotency.rows.find? id :=
    fun id hOther => (hRows id).trans (if_neg hOther)
  have hNew : repo.rows.find? (requests r).commandId = some row := (hRows _).trans (if_pos rfl)
  refine ⟨h.once, fun r' hr' => ?_, fun r' r'' hr' hr'' hSame => ?_, fun r' hr' r'' phase last hPhase hLast hSame => ?_,
    fun r' hPhase => ?_, fun r' outcome hPhase => ?_, fun r' last hPhase => ?_, fun id row' hRow hFilled => ?_,
    fun r' phase last hPhase hLast => ?_, fun id hNone => ?_, fun id row' hRow hReserved => ?_⟩
  · by_cases hSelf : r' = r
    · exact ⟨row, hSelf ▸ hNew, hZero⟩
    · obtain ⟨hBefore, hOther⟩ := hOld r' hr' hSelf
      obtain ⟨reserved, hReserved, hUnfilled⟩ := h.held r' hBefore
      exact ⟨reserved, (hKept _ hOther.symm).trans hReserved, hUnfilled⟩
  · by_cases hSelf : r' = r
    · by_cases hSelf' : r'' = r
      · exact hSelf.trans hSelf'.symm
      · exact absurd (hSelf ▸ hSame.symm) (hOld r'' hr'' hSelf').2
    · by_cases hSelf' : r'' = r
      · exact absurd (hSelf' ▸ hSame) (hOld r' hr' hSelf).2
      · exact h.single r' r'' (hOld r' hr' hSelf).1 (hOld r'' hr'' hSelf').1 hSame
  · obtain ⟨hBefore, hOther⟩ := hReports r'' phase last hPhase hLast
    by_cases hSelf : r' = r
    · exact hOther (hSelf ▸ hSame)
    · exact h.unanswered r' (hOld r' hr' hSelf).1 r'' phase last hBefore hLast hSame
  · rcases enter_cases hPhase with ⟨rfl, _⟩ | ⟨_, hBefore⟩
    · exact h.free _ hFree
    · exact h.owned r' hBefore
  · rcases enter_cases hPhase with ⟨_, hNot⟩ | ⟨_, hBefore⟩
    · cases hNot
    · exact h.failed r' outcome hBefore
  · rcases enter_cases hPhase with ⟨_, hNot⟩ | ⟨_, hBefore⟩
    · cases hNot
    · exact h.executed r' last hBefore
  · by_cases hSame : (requests r).commandId = id
    · subst hSame
      cases hNew.symm.trans hRow
      exact absurd hZero hFilled
    · exact h.filled id row' ((hKept id hSame).symm.trans hRow) hFilled
  · obtain ⟨hBefore, hOther⟩ := hReports r' phase last hPhase hLast
    obtain ⟨hRecorded, hSome⟩ := h.reported r' phase last hBefore hLast
    exact ⟨hRecorded, (congrArg Option.isSome (hKept _ hOther.symm)).trans hSome⟩
  · by_cases hSame : (requests r).commandId = id
    · subst hSame
      cases hNew.symm.trans hNone
    · exact h.free id ((hKept id hSame).symm.trans hNone)
  · by_cases hSame : (requests r).commandId = id
    · exact .inl ⟨r, ⟨.owned, enter_self, rfl⟩, hSame⟩
    · rcases h.stuck id row' ((hKept id hSame).symm.trans hRow) hReserved with ⟨r', hr', hId⟩ | hAppended
      · have hOther : r' ≠ r := fun hSelf => hIdle (hSelf ▸ hr')
        exact .inl ⟨r', holds_enter_of_ne hr' hOther, hId⟩
      · exact .inr hAppended

omit [DecidableEq R] in
theorem Recorded.append {executions : List (R × List EventEnvelope)} {id : Nat} (h : Recorded requests executions id last) (hOther : (requests r).commandId ≠ id) :
    Recorded requests (executions ++ [(r, events)]) id last := by
  obtain ⟨before, r', events', after, rfl, hId, hMem, hAfter⟩ := h
  refine ⟨before, r', events', after ++ [(r, events)], by rw [append_assoc, cons_append], hId, hMem, ?_⟩
  intro entry hEntry
  rcases mem_append.mp hEntry with hEntry | hEntry
  · exact hAfter entry hEntry
  · cases mem_singleton.mp hEntry
    exact hOther

include h in
theorem Sound.dispatch {db : Database} (hOwned : state.phases r = some .owned)
    (hLogged : ∀ last, outcome = .ok (some last) → ∃ envelope ∈ events, (envelope.id, envelope.seq) = last)
    (hFails : (requests r).door = .http → (∀ last, outcome ≠ .ok (some last)) → Silent events) :
    Sound requests { state.enter r (.executed outcome) with
      db := db
      executions := state.executions ++ [(r, events)] } := by
  have hHere : state.Holds r := ⟨_, hOwned, rfl⟩
  have hHolds : ∀ r', (state.enter r (.executed outcome)).Holds r' → state.Holds r' := by
    intro r' hr'
    rcases holds_enter hr' with ⟨rfl, _⟩ | ⟨_, hBefore⟩
    · exact hHere
    · exact hBefore
  have hReports : ∀ r' phase last, (state.enter r (.executed outcome)).phases r' = some phase →
      phase.reports = some last → state.phases r' = some phase := by
    intro r' phase last hPhase hLast
    rcases enter_cases hPhase with ⟨_, rfl⟩ | ⟨_, hBefore⟩
    · cases hLast
    · exact hBefore
  have hApart : ∀ r', r' ≠ r → state.Holds r' → (requests r).commandId ≠ (requests r').commandId :=
    fun r' hOther hr' hSame => hOther (h.single r r' hHere hr' hSame).symm
  obtain ⟨reserved, hReserved, hZero⟩ := h.held r hHere
  have hSilent : ∀ id, (requests r).commandId ≠ id →
      (∀ entry ∈ state.executions, (requests entry.1).commandId = id → Silent entry.2) →
      ∀ entry ∈ state.executions ++ [(r, events)], (requests entry.1).commandId = id → Silent entry.2 := by
    intro id hOther hBefore entry hEntry hId
    rcases mem_append.mp hEntry with hEntry | hEntry
    · exact hBefore entry hEntry hId
    · cases mem_singleton.mp hEntry
      exact absurd hId hOther
  refine ⟨?_, fun r' hr' => h.held r' (hHolds r' hr'),
    fun r' r'' hr' hr'' => h.single r' r'' (hHolds r' hr') (hHolds r'' hr''),
    fun r' hr' r'' phase last hPhase hLast =>
      h.unanswered r' (hHolds r' hr') r'' phase last (hReports r'' phase last hPhase hLast) hLast,
    fun r' hPhase => ?_, fun r' outcome' hPhase hDoor hNone => ?_, fun r' last hPhase => ?_, fun id row hRow hFilled => ?_,
    fun r' phase last hPhase hLast => ?_, fun id hNone => ?_, fun id row hRow hUnfilled => ?_⟩
  · refine pairwise_append.mpr ⟨h.once, pairwise_singleton _ _, fun entry hEntry other hOther hSame => ?_⟩
    cases mem_singleton.mp hOther
    exact h.owned r hOwned entry hEntry hSame
  · rcases enter_cases hPhase with ⟨_, hNot⟩ | ⟨hOther, hBefore⟩
    · cases hNot
    · exact hSilent _ (hApart r' hOther ⟨_, hBefore, rfl⟩) (h.owned r' hBefore)
  · rcases enter_cases hPhase with ⟨rfl, hOutcome⟩ | ⟨hOther, hBefore⟩
    · cases hOutcome
      intro entry hEntry hId
      rcases mem_append.mp hEntry with hEntry | hEntry
      · exact h.owned r' hOwned entry hEntry hId
      · cases mem_singleton.mp hEntry
        exact hFails hDoor hNone
    · exact hSilent _ (hApart r' hOther ⟨_, hBefore, rfl⟩) (h.failed r' outcome' hBefore hDoor hNone)
  · rcases enter_cases hPhase with ⟨rfl, hOutcome⟩ | ⟨hOther, hBefore⟩
    · injection hOutcome with hOutcome
      exact ⟨state.executions, r', events, [], rfl, rfl, hLogged last hOutcome.symm,
        fun _ hMem => absurd hMem not_mem_nil⟩
    · exact (h.executed r' last hBefore).append (hApart r' hOther ⟨_, hBefore, rfl⟩)
  · refine (h.filled id row hRow hFilled).append fun hSame => ?_
    rw [hSame] at hReserved
    cases hReserved.symm.trans hRow
    exact hFilled hZero
  · have hBefore := hReports r' phase last hPhase hLast
    obtain ⟨hRecorded, hSome⟩ := h.reported r' phase last hBefore hLast
    exact ⟨hRecorded.append fun hSame => h.unanswered r hHere r' phase last hBefore hLast hSame.symm, hSome⟩
  · refine hSilent id (fun hSame => ?_) (h.free id hNone)
    rw [hSame] at hReserved
    cases hReserved.symm.trans hNone
  · rcases h.stuck id row hRow hUnfilled with ⟨r', hr', hId⟩ | ⟨entry, hEntry, hId, hSome⟩
    · left
      by_cases hSelf : r' = r
      · subst hSelf
        exact ⟨r', ⟨_, enter_self, rfl⟩, hId⟩
      · exact ⟨r', holds_enter_of_ne hr' hSelf, hId⟩
    · exact .inr ⟨entry, mem_append_left _ hEntry, hId, hSome⟩

theorem reports_answerOf :
    (CommandPhase.answered (answerOf outcome)).reports = some last ↔ outcome = .ok (some last) := by
  cases outcome with
  | error e => exact ⟨nofun, nofun⟩
  | ok reported => exact ⟨congrArg Except.ok, fun h => by cases h; rfl⟩

include h in
theorem Sound.settle (hPhase : state.phases r = some (.executed outcome))
    (hElsewhere : ∀ id, (requests r).commandId ≠ id → repo.rows.find? id = state.idempotency.rows.find? id)
    (hRow : ∀ row, repo.rows.find? (requests r).commandId = some row →
      (row.serverEventSeq ≠ 0 → Recorded requests state.executions (requests r).commandId
        (row.serverEventId, row.serverEventSeq)) ∧
      (row.serverEventSeq = 0 → Appended requests state (requests r).commandId))
    (hGone : repo.rows.find? (requests r).commandId = none →
      (∀ entry ∈ state.executions, (requests entry.1).commandId = (requests r).commandId → Silent entry.2) ∧
        ∀ last, outcome ≠ .ok (some last)) :
    Sound requests { state.enter r (.answered (answerOf outcome)) with idempotency := repo } := by
  have hHere : state.Holds r := ⟨_, hPhase, rfl⟩
  have hHolds : ∀ r', (state.enter r (.answered (answerOf outcome))).Holds r' →
      r' ≠ r ∧ state.Holds r' ∧ (requests r).commandId ≠ (requests r').commandId := by
    intro r' hr'
    rcases holds_enter hr' with ⟨_, hNot⟩ | ⟨hOther, hBefore⟩
    · cases hNot
    · exact ⟨hOther, hBefore, fun hSame => hOther (h.single r r' hHere hBefore hSame).symm⟩
  have hBusy : ∀ r' phase, (state.enter r (.answered (answerOf outcome))).phases r' = some phase →
      phase.holding = true → state.phases r' = some phase := by
    intro r' phase hPhase' hHolding
    rcases enter_cases hPhase' with ⟨_, rfl⟩ | ⟨_, hBefore⟩
    · cases hHolding
    · exact hBefore
  refine ⟨h.once, fun r' hr' => ?_, fun r' r'' hr' hr'' => h.single r' r'' (hHolds r' hr').2.1 (hHolds r'' hr'').2.1,
    fun r' hr' r'' phase last hPhase' hLast => ?_, fun r' hPhase' => h.owned r' (hBusy r' _ hPhase' rfl),
    fun r' outcome' hPhase' => h.failed r' outcome' (hBusy r' _ hPhase' rfl),
    fun r' last hPhase' => h.executed r' last (hBusy r' _ hPhase' rfl), fun id row hFound hFilled => ?_,
    fun r' phase last hPhase' hLast => ?_, fun id hNone => ?_, fun id row hFound hZero => ?_⟩
  · obtain ⟨hOther, hBefore, hApart⟩ := hHolds r' hr'
    obtain ⟨row, hReserved, hZero⟩ := h.held r' hBefore
    exact ⟨row, (hElsewhere _ hApart).trans hReserved, hZero⟩
  · obtain ⟨_, hBefore, hApart⟩ := hHolds r' hr'
    rcases enter_cases hPhase' with ⟨rfl, _⟩ | ⟨_, hPhase''⟩
    · exact hApart
    · exact h.unanswered r' hBefore r'' phase last hPhase'' hLast
  · by_cases hSame : (requests r).commandId = id
    · subst hSame
      exact (hRow row hFound).1 hFilled
    · exact h.filled id row ((hElsewhere id hSame).symm.trans hFound) hFilled
  · rcases enter_cases hPhase' with ⟨rfl, rfl⟩ | ⟨_, hBefore⟩
    · have hOutcome := reports_answerOf.mp hLast
      refine ⟨h.executed r' last (hOutcome ▸ hPhase), ?_⟩
      cases hFound : repo.rows.find? (requests r').commandId with
      | none => exact absurd hOutcome ((hGone hFound).2 last)
      | some row => rfl
    · obtain ⟨hRecorded, hSome⟩ := h.reported r' phase last hBefore hLast
      have hApart : (requests r).commandId ≠ (requests r').commandId := fun hSame =>
        h.unanswered r hHere r' phase last hBefore hLast hSame.symm
      exact ⟨hRecorded, (congrArg Option.isSome (hElsewhere _ hApart)).trans hSome⟩
  · by_cases hSame : (requests r).commandId = id
    · subst hSame
      exact (hGone hNone).1
    · exact h.free id ((hElsewhere id hSame).symm.trans hNone)
  · by_cases hSame : (requests r).commandId = id
    · subst hSame
      exact .inr ((hRow row hFound).2 hZero)
    · rcases h.stuck id row ((hElsewhere id hSame).symm.trans hFound) hZero with ⟨r', hr', hId⟩ | hAppended
      · have hOther : r' ≠ r := fun hSelf => hSame (hSelf ▸ hId)
        exact .inl ⟨r', holds_enter_of_ne hr' hOther, hId⟩
      · exact .inr hAppended

include h in
omit [DecidableEq R] in
/-- The server starts anew: only answers stay. -/
theorem Sound.restart (hRows : repo.rows = state.idempotency.rows)
    (hLeaves : ∀ r, state.Holds r → Appended requests state (requests r).commandId) :
    Sound requests { state with idempotency := repo, phases := fun r => dropped (state.phases r) } := by
  have hAnswered : ∀ r phase, dropped (state.phases r) = some phase →
      phase.holding = false ∧ (∀ last, phase.reports = some last → state.phases r = some phase) := by
    intro r phase hPhase
    unfold dropped at hPhase
    split at hPhase
    · cases hPhase
    · rename_i answer hBefore
      cases hPhase
      exact ⟨rfl, fun _ _ => hBefore⟩
    · cases hPhase
      exact ⟨rfl, nofun⟩
  have hBusy : ∀ r phase, dropped (state.phases r) = some phase → phase.holding ≠ true := by
    intro r phase hPhase hHolding
    cases (hAnswered r phase hPhase).1.symm.trans hHolding
  have hReports : ∀ r phase last, dropped (state.phases r) = some phase → phase.reports = some last →
      state.phases r = some phase := fun r phase last hPhase hLast => (hAnswered r phase hPhase).2 last hLast
  refine ⟨h.once, ?_, ?_, ?_, fun r hPhase => absurd rfl (hBusy r _ hPhase),
    fun r outcome hPhase => absurd rfl (hBusy r _ hPhase), fun r last hPhase => absurd rfl (hBusy r _ hPhase),
    fun id row => ?_, fun r phase last hPhase hLast => ?_, fun id => ?_, fun id row hFound hZero => ?_⟩
  · rintro r ⟨phase, hPhase, hHolding⟩
    exact absurd hHolding (hBusy r phase hPhase)
  · rintro r _ ⟨phase, hPhase, hHolding⟩
    exact absurd hHolding (hBusy r phase hPhase)
  · rintro r ⟨phase, hPhase, hHolding⟩
    exact absurd hHolding (hBusy r phase hPhase)
  · dsimp only
    rw [hRows]
    exact h.filled id row
  · dsimp only
    rw [hRows]
    exact h.reported r phase last (hReports r phase last hPhase hLast) hLast
  · dsimp only
    rw [hRows]
    exact h.free id
  · dsimp only at hFound
    rw [hRows] at hFound
    rcases h.stuck id row hFound hZero with ⟨r, hr, hId⟩ | hAppended
    · exact .inr (hId ▸ hLeaves r hr)
    · exact .inr hAppended

omit [DecidableEq R] in
theorem outcomeOf_logged {env : Env} (h : outcomeOf config requests state r env = .ok (some last)) :
    ∃ envelope ∈ appendedBy config requests state r env, (envelope.id, envelope.seq) = last := by
  unfold outcomeOf at h
  unfold appendedBy
  cases hHandled : handled config requests state r env with
  | mk outcome after =>
  rw [hHandled] at h
  cases outcome with
  | error e => cases h
  | ok answer =>
    injection h with h
    obtain ⟨envelope, hLast, hPlace⟩ := Option.map_eq_some_iff.mp h
    have hMem := mem_of_getLast? hLast
    refine ⟨envelope, ?_, hPlace⟩
    cases Handler.handled hHandled with
    | unlogged hOutcome hRelations hAudited =>
      rw [hOutcome answer rfl] at hMem
      exact absurd hMem not_mem_nil
    | projected hAccepted hApplied hAnswer =>
      obtain ⟨later, hLater⟩ := (@AutoAppend.autoAppendLogs_lines config (env.part 5) _ _).grows
      rw [hLater, (Projections.applyEvents_sameLog hApplied).1, hAccepted.log, append_assoc, drop_left]
      exact mem_append_left _ (hAnswer ▸ hMem)

/-- Over HTTP a dispatch without a result has appended nothing but rules that fired; a
request that ends without having appended anything is over HTTP, and its reservation
is released; and the table keeps its rows for the time of the run. -/
def KeepsIds (config : Config) (requests : R → KeyedRequest) (state : CommandTraffic R) : TrafficOp R → Prop
  | .dispatch r env => state.phases r = some .owned → (requests r).door = .http →
      (∀ last, outcomeOf config requests state r env ≠ .ok (some last)) → Silent (appendedBy config requests state r env)
  | .settle r stored => ∀ outcome, state.phases r = some (.executed outcome) → (∀ last, outcome ≠ .ok (some last)) →
      ((requests r).door = .http ∧ stored = true) ∨ Appended requests state (requests r).commandId
  | .lose r => state.Holds r → Appended requests state (requests r).commandId
  | .restart _ => ∀ r, state.Holds r → Appended requests state (requests r).commandId
  | .cleanup cutoff => ∀ row ∈ state.idempotency.rows, cutoff ≤ row.createdAt
  | _ => True

def EachKeepsIds (config : Config) (requests : R → KeyedRequest) : CommandTraffic R → List (TrafficOp R) → Prop
  | _, [] => True
  | state, op :: rest =>
    KeepsIds config requests state op ∧ EachKeepsIds config requests (step config requests state op) rest

omit [DecidableEq R] in
theorem not_holds_of_phase (hPhase : state.phases r = some phase)
    (hIdle : phase.holding = false) : ¬state.Holds r := by
  rintro ⟨phase', hPhase', hHolding⟩
  cases hPhase.symm.trans hPhase'
  cases hIdle.symm.trans hHolding

include h in
theorem sound_lookup (r : R) : Sound requests (lookup requests state r) := by
  unfold lookup
  split
  · rename_i polls hPhase
    have hIdle := not_holds_of_phase hPhase rfl
    split
    · rename_i eventId eventSeq hFound
      exact h.replay hIdle hFound
    · exact h.enter_idle rfl rfl (.inl hIdle)
  · rename_i polls hPhase
    have hIdle := not_holds_of_phase hPhase rfl
    split
    · rename_i eventId eventSeq hFound
      exact h.replay hIdle hFound
    · split
      · exact h.enter_idle rfl rfl (.inl hIdle)
      · exact h.enter_idle rfl rfl (.inl hIdle)
  · exact h

include h in
theorem sound_reserve (r : R) (now : Timestamp) (others : Nat → Bool) :
    Sound requests (reserve requests state r now others) := by
  unfold reserve
  split
  · rename_i polls hPhase
    have hIdle := not_holds_of_phase hPhase rfl
    cases hFound : state.idempotency.rows.find? (requests r).commandId with
    | none =>
      obtain ⟨hWon, hRows⟩ := @reserve_of_none _ _ now others hFound
      dsimp only
      rw [if_pos hWon]
      exact h.reserve hIdle hFound rfl hRows
    | some row =>
      obtain ⟨hLost, hRows⟩ := @IdempotencyRepo.reserve_rows_of_some _ _ now others row hFound
      dsimp only
      rw [if_neg (by rw [hLost]; exact Bool.false_ne_true)]
      have hEntered : Sound requests (state.enter r (lostTo (requests r).door polls)) := by
        refine h.enter_idle ?_ ?_ (.inl hIdle)
        · unfold lostTo
          split
          · split <;> rfl
          · rfl
        · unfold lostTo
          split
          · split <;> rfl
          · rfl
      exact hEntered.of_rows hRows
  · exact h

include h in
theorem Sound.refused {e : CoreError} (hOwned : state.phases r = some .owned) :
    Sound requests (state.enter r (.executed (.error e))) := by
  have hHere : state.Holds r := ⟨_, hOwned, rfl⟩
  have hHolds : ∀ r', (state.enter r (.executed (.error e))).Holds r' → state.Holds r' := by
    intro r' hr'
    rcases holds_enter hr' with ⟨rfl, _⟩ | ⟨_, hBefore⟩
    · exact hHere
    · exact hBefore
  have hReports : ∀ r' phase last, (state.enter r (.executed (.error e))).phases r' = some phase →
      phase.reports = some last → state.phases r' = some phase := by
    intro r' phase last hPhase hLast
    rcases enter_cases hPhase with ⟨_, rfl⟩ | ⟨_, hBefore⟩
    · cases hLast
    · exact hBefore
  refine ⟨h.once, fun r' hr' => h.held r' (hHolds r' hr'),
    fun r' r'' hr' hr'' => h.single r' r'' (hHolds r' hr') (hHolds r'' hr''),
    fun r' hr' r'' phase last hPhase hLast =>
      h.unanswered r' (hHolds r' hr') r'' phase last (hReports r'' phase last hPhase hLast) hLast,
    fun r' hPhase => ?_, fun r' outcome hPhase hDoor hNone => ?_, fun r' last hPhase => ?_, h.filled,
    fun r' phase last hPhase hLast => h.reported r' phase last (hReports r' phase last hPhase hLast) hLast, h.free,
    fun id row hRow hZero => ?_⟩
  · rcases enter_cases hPhase with ⟨_, hNot⟩ | ⟨_, hBefore⟩
    · cases hNot
    · exact h.owned r' hBefore
  · rcases enter_cases hPhase with ⟨rfl, _⟩ | ⟨_, hBefore⟩
    · exact h.owned r' hOwned
    · exact h.failed r' outcome hBefore hDoor hNone
  · rcases enter_cases hPhase with ⟨_, hNot⟩ | ⟨_, hBefore⟩
    · cases hNot
    · exact h.executed r' last hBefore
  · rcases h.stuck id row hRow hZero with ⟨r', hr', hId⟩ | hAppended
    · left
      by_cases hSelf : r' = r
      · subst hSelf
        exact ⟨r', ⟨_, enter_self, rfl⟩, hId⟩
      · exact ⟨r', holds_enter_of_ne hr' hSelf, hId⟩
    · exact .inr hAppended

include h in
theorem sound_refuse (r : R) (e : CoreError) : Sound requests (refuse requests state r e) := by
  unfold refuse
  split
  · rename_i hPhase
    exact h.enter_idle rfl rfl (.inl (not_holds_of_phase hPhase rfl))
  · rename_i hPhase
    exact h.enter_idle rfl rfl (.inl (not_holds_of_phase hPhase rfl))
  · rename_i hPhase
    exact h.enter_idle rfl rfl (.inl (not_holds_of_phase hPhase rfl))
  · rename_i hPhase
    split
    · exact h.refused hPhase
    · exact h
  · exact h

include h in
theorem Sound.unsettled (hPhase : state.phases r = some (.executed outcome))
    (hAppended : Appended requests state (requests r).commandId) :
    Sound requests (state.enter r (.answered (answerOf outcome))) := by
  obtain ⟨row, hReserved, hZero⟩ := h.held r ⟨_, hPhase, rfl⟩
  have hSettled : Sound requests { state.enter r (.answered (answerOf outcome)) with idempotency := state.idempotency } := by
    refine h.settle hPhase (fun _ _ => rfl) (fun row' hRow => ?_) fun hNone => ?_
    · cases hReserved.symm.trans hRow
      exact ⟨fun hFilled => absurd hZero hFilled, fun _ => hAppended⟩
    · cases hReserved.symm.trans hNone
  exact hSettled

theorem Sound.completed {r : R} {eventId : EventId} {eventSeq : Nat} (h : Sound requests state)
    (hPhase : state.phases r = some (.executed (.ok (some (eventId, eventSeq))))) :
    Sound requests { state.enter r (.answered (.succeeded (some (eventId, eventSeq)))) with
      idempotency := state.idempotency.complete (requests r).commandId eventId eventSeq } := by
  obtain ⟨row, hReserved, hZero⟩ := h.held r ⟨_, hPhase, rfl⟩
  have hRecorded := h.executed r _ hPhase
  have hRow : (state.idempotency.complete (requests r).commandId eventId eventSeq).rows.find? (requests r).commandId =
      some { row with serverEventId := eventId, serverEventSeq := eventSeq } := by
    rw [complete_find?, if_pos rfl, hReserved, Option.map_some, if_pos hZero]
  refine h.settle hPhase (fun id hOther => ?_) (fun row' hFound => ?_) fun hNone => ?_
  · rw [complete_find?, if_neg hOther]
  · cases hRow.symm.trans hFound
    exact ⟨fun _ => hRecorded, fun _ => hRecorded.appended⟩
  · cases hRow.symm.trans hNone

include h in
theorem Sound.released (hPhase : state.phases r = some (.executed outcome)) (hDoor : (requests r).door = .http)
    (hNone : ∀ last, outcome ≠ .ok (some last)) : Sound requests { state.enter r (.answered (answerOf outcome)) with
      idempotency := state.idempotency.release (requests r).commandId } := by
  obtain ⟨row, hReserved, hZero⟩ := h.held r ⟨_, hPhase, rfl⟩
  have hId : row.clientCommandId = (requests r).commandId := KeyedTable.key_of_find? hReserved
  have hGone : (state.idempotency.release (requests r).commandId).rows.find? (requests r).commandId = none := by
    rw [release_find?, hReserved]
    simp [hId, hZero]
  refine h.settle hPhase (fun id hOther => ?_) (fun row' hFound => ?_)
    fun _ => ⟨h.failed r outcome hPhase hDoor hNone, hNone⟩
  · rw [release_find?]
    cases hFound : state.idempotency.rows.find? id with
    | none => rfl
    | some other =>
      have hKey : other.clientCommandId = id := KeyedTable.key_of_find? hFound
      have hApart : other.clientCommandId ≠ (requests r).commandId := fun hSame => hOther (hSame.symm.trans hKey)
      simp [hApart]
  · cases hGone.symm.trans hFound

include h in
theorem sound_settle (r : R) (stored : Bool)
    (hKeeps : KeepsIds config requests state (.settle r stored)) : Sound requests (settle requests state r stored) := by
  unfold settle
  split
  · rename_i outcome hPhase
    have hAppended : ((requests r).door ≠ .http ∨ stored = false) → Appended requests state (requests r).commandId := by
      intro hUnsettled
      by_cases hResult : ∃ last, outcome = .ok (some last)
      · obtain ⟨last, rfl⟩ := hResult
        exact (h.executed r last hPhase).appended
      · rcases hKeeps outcome hPhase (fun last hIs => hResult ⟨last, hIs⟩) with ⟨hDoor, hStored⟩ | hAppended
        · rcases hUnsettled with hNot | hNot
          · exact absurd hDoor hNot
          · cases hStored.symm.trans hNot
        · exact hAppended
    cases stored with
    | false => exact h.unsettled hPhase (hAppended (.inr rfl))
    | true =>
      rw [if_pos rfl]
      unfold settled
      split
      · exact h.completed hPhase
      · rename_i hNot hDoor
        exact h.released hPhase hDoor fun last hIs => hNot last.1 last.2 hIs
      · rename_i hDoor
        exact h.unsettled hPhase (hAppended (.inl (by rw [hDoor]; exact nofun)))
  · exact h

include h in
theorem sound_step {op : TrafficOp R} (hKeeps : KeepsIds config requests state op) :
    Sound requests (step config requests state op) := by
  cases op with
  | arrive r =>
    dsimp only [step]
    split
    · rename_i hNew
      refine h.enter_idle rfl rfl (.inl ?_)
      rintro ⟨phase, hPhase, _⟩
      cases hNew.symm.trans hPhase
    · exact h
  | lookup r => exact sound_lookup h r
  | reserve r now others => exact sound_reserve h r now others
  | refuse r e => exact sound_refuse h r e
  | dispatch r env =>
    dsimp only [step]
    unfold dispatch
    split
    · rename_i hOwned
      exact h.dispatch hOwned (fun last hOutcome => outcomeOf_logged hOutcome) (hKeeps hOwned)
    · exact h
  | settle r stored => exact sound_settle h r stored hKeeps
  | lose r =>
    have hStays : ∀ phase, dropped (state.phases r) = phase → phase = state.phases r →
        Sound requests { state with phases := Function.update state.phases r phase } := by
      rintro phase _ rfl
      rw [Function.update_eq_self]
      exact h
    dsimp only [step]
    cases hPhase : state.phases r with
    | none => exact hStays none (congrArg dropped hPhase) hPhase.symm
    | some phase =>
      cases phase with
      | answered answer => exact hStays _ (congrArg dropped hPhase) hPhase.symm
      | owned | executed => exact h.enter_idle rfl rfl (.inr (hKeeps ⟨_, hPhase, rfl⟩))
      | _ => exact h.enter_idle rfl rfl (.inl (not_holds_of_phase hPhase rfl))
  | restart others => exact h.restart rfl hKeeps
  | cleanup cutoff => exact h.of_rows (IdempotencyRepo.cleanupBefore_eq hKeeps)
  | elsewhere call =>
    exact ⟨h.once, h.held, h.single, h.unanswered, h.owned, h.failed, h.executed, h.filled, h.reported, h.free, h.stuck⟩

structure ExactlyOnce (requests : R → KeyedRequest) (state : CommandTraffic R) : Prop where
  /-- Before a dispatch, the earlier ones under its id appended nothing but rules that fired. -/
  once : state.executions.Pairwise fun first second =>
    (requests first.1).commandId = (requests second.1).commandId → Silent first.2
  /-- A client is told the place of an event that a dispatch under its id appended, and
  of the one that appended anything but rules that fired. -/
  reports : ∀ r phase last, state.phases r = some phase → phase.reports = some last →
    (∃ entry ∈ state.executions, (requests entry.1).commandId = (requests r).commandId ∧
      ∃ envelope ∈ entry.2, (envelope.id, envelope.seq) = last) ∧
    ∀ entry ∈ state.executions, (requests entry.1).commandId = (requests r).commandId → ¬Silent entry.2 →
      ∃ envelope ∈ entry.2, (envelope.id, envelope.seq) = last
  /-- Once the requests with an id have ended without appending anything, the next one
  with it is dispatched. -/
  retried : ∀ r, (∀ r', (requests r').commandId = (requests r).commandId → ¬state.Holds r') →
    ¬Appended requests state (requests r).commandId →
    (∀ polls, state.phases r = some (.looking polls) → (lookup requests state r).phases r = some (.reserving polls)) ∧
    ∀ polls now others, state.phases r = some (.reserving polls) →
      (reserve requests state r now others).phases r = some .owned

include h in
theorem Sound.exactlyOnce : ExactlyOnce requests state := by
  refine ⟨h.once, fun r phase last hPhase hLast => ?_, fun r hNone hEmpty => ?_⟩
  · obtain ⟨before, r', events, after, hSplit, hId, hPlace, hAfter⟩ := (h.reported r phase last hPhase hLast).1
    refine ⟨⟨(r', events), by rw [hSplit]; exact mem_append_right _ mem_cons_self, hId, hPlace⟩, ?_⟩
    intro entry hEntry hSame hLoud
    have hOnce := h.once
    rw [hSplit] at hEntry hOnce
    rcases mem_append.mp hEntry with hBefore | hRest
    · have hSilent := (pairwise_append.mp hOnce).2.2 entry hBefore (r', events) mem_cons_self
      exact absurd (hSilent (hSame.trans hId.symm)) hLoud
    · rcases mem_cons.mp hRest with rfl | hLater
      · exact hPlace
      · exact absurd hSame (hAfter entry hLater)
  · have hFree : state.idempotency.rows.find? (requests r).commandId = none := by
      cases hRow : state.idempotency.rows.find? (requests r).commandId with
      | none => rfl
      | some row =>
        exfalso
        by_cases hZero : row.serverEventSeq = 0
        · rcases h.stuck _ row hRow hZero with ⟨r', hr', hSame⟩ | hAppended
          · exact hNone r' hSame hr'
          · exact hEmpty hAppended
        · exact hEmpty (h.filled _ row hRow hZero).appended
    constructor
    · intro polls hPhase
      have hMissed : state.idempotency.lookup (requests r).commandId = none := by
        cases hFound : state.idempotency.lookup (requests r).commandId with
        | none => rfl
        | some place =>
          obtain ⟨row, hRow, _⟩ := lookup_some hFound
          cases hFree.symm.trans hRow
      unfold lookup
      rw [hPhase]
      dsimp only
      rw [hMissed]
      exact enter_self
    · intro polls now others hPhase
      obtain ⟨hWon, _⟩ := @reserve_of_none _ _ now others hFree
      unfold CommandTraffic.reserve
      rw [hPhase]
      dsimp only
      rw [if_pos hWon]
      exact enter_self

/-- In every run whose steps keep their ids, each id is executed once. -/
theorem commands_exactly_once {db : Database} {ops : List (TrafficOp R)}
    (hKeeps : EachKeepsIds config requests (start db) ops) :
    ∀ earlier later, ops = earlier ++ later → ExactlyOnce requests (run config requests (start db) earlier) := by
  have hRun : ∀ (earlier : List (TrafficOp R)) state later, Sound requests state →
      EachKeepsIds config requests state (earlier ++ later) → Sound requests (run config requests state earlier) := by
    intro earlier
    induction earlier with
    | nil => exact fun _ _ hSound _ => hSound
    | cons op rest ih => exact fun state later hSound hAll => ih _ later (sound_step hSound hAll.1) hAll.2
  rintro earlier later rfl
  exact (hRun earlier _ later (sound_start db) hKeeps).exactlyOnce

private def createdTwice (_ : Bool) : KeyedRequest :=
  ⟨.http, 5, .internal, .task (.createTask { NewTask.new "task" with id := some ⟨7⟩ }), .anyUser⟩

private def sentTwice : List (TrafficOp Bool) :=
  [.arrive false, .lookup false, .reserve false 0 fun _ => false, .arrive true, .dispatch false (Server.nthEnv 0),
    .settle false true, .lookup true]

theorem commands_exactly_once_sent_twice :
    ExactlyOnce createdTwice (run Server.engineConfig createdTwice (start Database.empty) sentTwice) := by
  have hKeeps : EachKeepsIds Server.engineConfig createdTwice (start Database.empty) sentTwice := by
    refine ⟨trivial, trivial, trivial, trivial, fun _ _ hNone => ?_, fun _ _ _ => .inl ⟨rfl, rfl⟩, trivial, trivial⟩
    have hResult : (outcomeOf Server.engineConfig createdTwice
        (run Server.engineConfig createdTwice (start Database.empty) (sentTwice.take 4)) false
          (Server.nthEnv 0)).toOption.join.isSome = true := by decide +kernel
    cases hOutcome : outcomeOf Server.engineConfig createdTwice
        (run Server.engineConfig createdTwice (start Database.empty) (sentTwice.take 4)) false (Server.nthEnv 0) with
    | error e =>
      rw [hOutcome] at hResult
      cases hResult
    | ok result =>
      rw [hOutcome] at hResult
      obtain ⟨last, rfl⟩ := Option.isSome_iff_exists.mp hResult
      exact absurd hOutcome (hNone last)
  exact commands_exactly_once hKeeps sentTwice [] (append_nil _).symm

/-- The completion of a task that does not exist, over a WebSocket and sent again. -/
private def refusedTwice (_ : Bool) : KeyedRequest := ⟨.ws, 5, .internal, .task (.completeTask ⟨7⟩ none), .anyUser⟩

private def refusedThenSent : List (TrafficOp Bool) :=
  [.arrive false, .lookup false, .reserve false 0 fun _ => false, .dispatch false (Server.nthEnv 0), .settle false true,
    .arrive true, .lookup true]

private def refusedTraffic : CommandTraffic Bool :=
  run Server.engineConfig refusedTwice (start Database.empty) refusedThenSent

/-- Nothing was appended and no request holds the id, but it stays reserved. -/
theorem refused_dispatch_keeps_id : ¬ExactlyOnce refusedTwice refusedTraffic := by
  intro hOnce
  have hEnded : (refusedTraffic.phases false).any CommandPhase.holding = false := by decide +kernel
  have hWaits : (refusedTraffic.phases true).any (fun | .reserving _ => true | _ => false) = true := by decide +kernel
  have hBusy : ((reserve refusedTwice refusedTraffic true 0 fun _ => false).phases true).any
      CommandPhase.holding = false := by decide +kernel
  have hEmpty : refusedTraffic.executions.all (fun entry => entry.2.isEmpty) = true := by decide +kernel
  have hNone : ¬Appended refusedTwice refusedTraffic 5 := by
    rintro ⟨entry, hMem, _, hSome⟩
    exact hSome (isEmpty_iff.mp (all_eq_true.mp hEmpty entry hMem))
  obtain ⟨phase, hPhase, hReserving⟩ := (Option.any_eq_true _ _).mp hWaits
  cases phase with
  | reserving polls =>
    have hFree : ∀ r, (refusedTwice r).commandId = (refusedTwice true).commandId → ¬refusedTraffic.Holds r := by
      rintro r _ ⟨held, hHeld, hHolding⟩
      cases r with
      | false =>
        rw [hHeld, Option.any_some, hHolding] at hEnded
        cases hEnded
      | true =>
        cases hPhase.symm.trans hHeld
        cases hHolding
    have hOwned := (hOnce.retried true hFree hNone).2 polls 0 (fun _ => false) hPhase
    rw [hOwned] at hBusy
    cases hBusy
  | _ => cases hReserving

end CommandTraffic
end Daruma
