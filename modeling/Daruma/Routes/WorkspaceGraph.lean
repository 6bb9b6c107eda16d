import Daruma.Events.Event
import Daruma.Library.Transition

/-! The index of the workspace beside the event log: what brings it up to date at a
start, and what keeps it so while events are published. -/
namespace Daruma

/-- The rows of the event log, in their order, and the last number that it gave. What
a purge took is remembered here, the store forgets it. -/
structure EventLog where
  rows : List EventEnvelope
  latestSeq : Nat
  purged : List EventEnvelope
  sorted : rows.Pairwise fun a b => a.seq < b.seq
  positive : ∀ row ∈ rows, 0 < row.seq
  within : ∀ row ∈ rows, row.seq ≤ latestSeq

namespace EventLog

def empty : EventLog :=
  ⟨[], 0, [], .nil, fun _ hMem => absurd hMem List.not_mem_nil, fun _ hMem => absurd hMem List.not_mem_nil⟩

def stored (self : EventLog) (envelope : EventEnvelope) : EventEnvelope :=
  { envelope with seq := self.latestSeq + 1 }

def append (self : EventLog) (envelope : EventEnvelope) : EventLog where
  rows := self.rows ++ [self.stored envelope]
  latestSeq := self.latestSeq + 1
  purged := self.purged
  sorted := List.pairwise_append.mpr ⟨self.sorted, List.pairwise_singleton _ _, fun row hRow other hOther => by
    cases List.mem_singleton.mp hOther
    exact Nat.lt_succ_of_le (self.within row hRow)⟩
  positive := by
    intro row hRow
    rcases List.mem_append.mp hRow with hRow | hRow
    · exact self.positive row hRow
    · cases List.mem_singleton.mp hRow
      exact Nat.succ_pos _
  within := by
    intro row hRow
    rcases List.mem_append.mp hRow with hRow | hRow
    · exact Nat.le_succ_of_le (self.within row hRow)
    · cases List.mem_singleton.mp hRow
      exact Nat.le_refl _

/-- Remove rows. No row is numbered anew, and no number is given again. -/
def purge (self : EventLog) (gone : EventEnvelope → Bool) : EventLog where
  rows := self.rows.filter fun row => !gone row
  latestSeq := self.latestSeq
  purged := self.purged ++ self.rows.filter gone
  sorted := self.sorted.filter _
  positive := fun row hRow => self.positive row (List.mem_filter.mp hRow).1
  within := fun row hRow => self.within row (List.mem_filter.mp hRow).1

/-- The first rows after a number. -/
def loadSince (self : EventLog) (since limit : Nat) : List EventEnvelope :=
  (self.rows.filter fun row => since < row.seq).take limit

end EventLog

/-- Where the index stands: the last event that it took. An index written before
there was a cursor has no id. -/
structure GraphCursor where
  seq : Nat
  eventId : Option EventId

/-- The derived rows, and the two rows of the metadata that name the last event. -/
structure WorkspaceGraph (Index : Type) where
  index : Index
  lastEventSeq : Option Nat
  lastEventCursor : Option (Nat × EventId)

namespace WorkspaceGraph

variable {Index : Type}

def cursor (self : WorkspaceGraph Index) : Option GraphCursor :=
  match self.lastEventCursor with
  | some (seq, id) => some ⟨seq, some id⟩
  | none => self.lastEventSeq.map fun seq => ⟨seq, none⟩

def position (self : WorkspaceGraph Index) : Nat := (self.cursor.map GraphCursor.seq).getD 0

/-- An index without rows and without a cursor. -/
def reset (empty : Index) : WorkspaceGraph Index := ⟨empty, none, none⟩

/-- Write an event into the index, and move the cursor to it. The writes are not one
transaction: a fault leaves what was written before it. -/
def applyEvent (apply : Index → EventEnvelope → Index) (self : WorkspaceGraph Index) (envelope : EventEnvelope) :
    Option (WorkspaceGraph Index) → WorkspaceGraph Index
  | some left => left
  | none => ⟨apply self.index envelope, some envelope.seq, some (envelope.seq, envelope.id)⟩

end WorkspaceGraph

/-- Why the cursor cannot be resumed from. A row that is missing at the cursor is no
evidence: a purge may have taken it. -/
def rollbackReason (cursor : Option GraphCursor) (log : EventLog) : Option String :=
  match cursor with
  | none => none
  | some cursor =>
    if cursor.seq = 0 then none
    else if log.latestSeq < cursor.seq then some "cursor_ahead_of_log"
    else match cursor.eventId, (log.loadSince (cursor.seq - 1) 1).head? with
      | some savedId, some row =>
        if row.seq = cursor.seq ∧ row.id ≠ savedId then some "cursor_event_id_mismatch" else none
      | _, _ => none

def catchupBatchSize : Nat := 500

/-- A catch-up under way: the number to load after, and what is left of its batch. -/
structure CatchUp where
  last : Nat
  batch : List EventEnvelope

/-- The store, its backups, the index, and the process between them. -/
structure GraphWorld (Index : Type) where
  log : EventLog
  backups : List EventLog
  graph : WorkspaceGraph Index
  /-- Appended, and not yet published. -/
  unpublished : List EventEnvelope
  /-- The channel of the live subscriber, once there is one. -/
  inbox : Option (List EventEnvelope)
  catchUp : Option CatchUp
  /-- A catch-up has finished since the start. -/
  caughtUp : Bool
  /-- The events that the index took since it was last empty. Nothing reads it. -/
  indexed : List EventEnvelope

inductive GraphAction (Index : Type) where
  | append (envelope : EventEnvelope)
  /-- Publish one of the appended events; two commands may come in any order. -/
  | publish (place : Nat)
  | subscribe
  | deliver (fault : Option (WorkspaceGraph Index))
  /-- The channel overflows: its oldest events are gone. -/
  | lag (skipped : Nat)
  | stop
  | startCatchUp
  | load
  | replay (fault : Option (WorkspaceGraph Index))
  | finish
  | purge (gone : EventEnvelope → Bool)
  | backup
  | restore (place : Nat)

namespace GraphWorld

variable {Index : Type} (apply : Index → EventEnvelope → Index) (empty : Index)

def init : GraphWorld Index := ⟨.empty, [], .reset empty, [], none, none, false, []⟩

def take (self : GraphWorld Index) (envelope : EventEnvelope) (fault : Option (WorkspaceGraph Index)) :
    GraphWorld Index :=
  { self with
    graph := self.graph.applyEvent apply envelope fault
    indexed := if fault.isNone then self.indexed ++ [envelope] else self.indexed }

/-- Read the cursor, and drop the index when the log is not the one it stands on. -/
def startCatchUp (self : GraphWorld Index) : GraphWorld Index :=
  match rollbackReason self.graph.cursor self.log with
  | some _ => { self with graph := .reset empty, indexed := [], catchUp := some ⟨0, []⟩, caughtUp := false }
  | none => { self with catchUp := some ⟨self.graph.position, []⟩, caughtUp := false }

def step (self : GraphWorld Index) : GraphAction Index → Option (GraphWorld Index)
  | .append envelope => some { self with
      log := self.log.append envelope
      unpublished := self.unpublished ++ [self.log.stored envelope] }
  | .publish place => self.unpublished[place]?.map fun envelope => { self with
      unpublished := self.unpublished.eraseIdx place
      inbox := self.inbox.map fun inbox => inbox ++ [envelope] }
  | .subscribe => if self.caughtUp && self.inbox.isNone then some { self with inbox := some [] } else none
  | .deliver fault =>
    match self.inbox with
    | some (envelope :: rest) => some (take apply { self with inbox := some rest } envelope fault)
    | _ => none
  | .lag skipped => self.inbox.map fun inbox => { self with inbox := some (inbox.drop skipped) }
  | .stop => some { self with unpublished := [], inbox := none, catchUp := none, caughtUp := false }
  | .startCatchUp => if self.catchUp.isNone then some (startCatchUp empty self) else none
  | .load =>
    match self.catchUp with
    | some ⟨last, []⟩ =>
      let batch := self.log.loadSince last catchupBatchSize
      batch.getLast?.map fun row => { self with catchUp := some ⟨row.seq, batch⟩ }
    | _ => none
  | .replay fault =>
    match self.catchUp with
    | some ⟨last, envelope :: rest⟩ => some (take apply { self with catchUp := some ⟨last, rest⟩ } envelope fault)
    | _ => none
  | .finish =>
    match self.catchUp with
    | some ⟨last, []⟩ =>
      if (self.log.loadSince last catchupBatchSize).isEmpty then some { self with catchUp := none, caughtUp := true }
      else none
    | _ => none
  | .purge gone => some { self with log := self.log.purge gone }
  | .backup => some { self with backups := self.backups ++ [self.log] }
  | .restore place =>
    -- A store is restored under a server that is down.
    if self.inbox.isNone && self.catchUp.isNone && !self.caughtUp then
      self.backups[place]?.map fun log => { self with log := log, unpublished := [] }
    else none

/-- The events that are published and not yet received. -/
def pending (self : GraphWorld Index) : List EventEnvelope := self.inbox.getD []

/-- A catch-up has finished, and no later event is on its way. -/
structure Settled (world : GraphWorld Index) : Prop where
  caughtUp : world.caughtUp = true
  published : world.unpublished = []
  received : world.pending = []

/-- The index is the fold, in their order, of the events of the log, with some that a
purge took from it. -/
structure Mirrors (world : GraphWorld Index) (events : List EventEnvelope) : Prop where
  fold : world.graph.index = events.foldl apply empty
  sorted : events.Pairwise fun a b => a.seq < b.seq
  complete : ∀ row ∈ world.log.rows, row ∈ events
  only : ∀ event ∈ events, event ∈ world.log.rows ∨ event ∈ world.log.purged

/-- The event is the first of the log after the cursor. -/
structure Next (world : GraphWorld Index) (envelope : EventEnvelope) : Prop where
  stored : envelope ∈ world.log.rows
  later : world.graph.position < envelope.seq
  first : ∀ row ∈ world.log.rows, row.seq ≤ world.graph.position ∨ envelope.seq ≤ row.seq

/-- The log up to the cursor is the one that was indexed. -/
structure Anchored (world : GraphWorld Index) : Prop where
  indexed : ∀ row ∈ world.log.rows, row.seq ≤ world.graph.position → row ∈ world.indexed
  known : ∀ event ∈ world.indexed, event ∈ world.log.rows ∨ event ∈ world.log.purged

/-- The index can do without the event: it has taken it, or a catch-up is still to
finish. -/
def Spares (self : GraphWorld Index) (envelope : EventEnvelope) : Prop :=
  self.caughtUp = false ∨ envelope.seq ≤ self.graph.position

/-- The action passes over no event and repeats none. -/
def Steady (self : GraphWorld Index) : GraphAction Index → Prop
  | .publish place => self.inbox.isSome ∨ ∀ envelope, self.unpublished[place]? = some envelope → self.Spares envelope
  | .deliver none => ∀ envelope ∈ self.pending.head?, self.Next envelope
  | .deliver (some left) => left = self.graph ∧ ∀ envelope ∈ self.pending.head?, self.Spares envelope
  | .lag skipped => ∀ envelope ∈ self.pending.take skipped, self.Spares envelope
  | .startCatchUp => rollbackReason self.graph.cursor self.log = none → self.Anchored
  | .replay none => ∀ catchUp ∈ self.catchUp, ∀ envelope ∈ catchUp.batch.head?, self.Next envelope
  | .replay (some left) => left = self.graph
  | .finish => ∀ row ∈ self.log.rows, row.seq ≤ self.graph.position
  | _ => True

def Does (self after : GraphWorld Index) : Prop := ∃ action, step apply empty self action = some after

/-- One action that loses nothing. -/
def DoesSteadily (self after : GraphWorld Index) : Prop :=
  ∃ action, self.Steady action ∧ step apply empty self action = some after

end GraphWorld
end Daruma
