import Daruma.Library.Transition
import Daruma.Storage.Database
import Mathlib.Logic.Function.Basic

/-! The outbox of a desktop replica. Local commands queue their events as they log
them, processes of the device flush the queue to the server, and events that an
older binary logged without queueing are held until a user lets them go. -/
namespace Daruma
namespace Outbox

structure LogEvent (Payload : Type) where
  id : EventId
  seq : Nat
  payload : Payload

/-- A row of the queue. The origin device is the replica's own. -/
structure OutboxEntry (Payload : Type) where
  id : Nat
  originSeq : Nat
  event : LogEvent Payload
  flushed : Bool

/-- What the server did with a pushed event. A transient failure is no outcome: it
ends the flush. -/
inductive PushOutcome where
  | accepted
  | rejected
  deriving DecidableEq

/-- How far a flush has got: it has read what is held, it has entries to push, or it
has an outcome to record. -/
inductive Flush (Payload : Type) where
  | reading (held : List (TaskId × Nat))
  | pushing (pending : List (OutboxEntry Payload))
  | marking (entry : OutboxEntry Payload) (outcome : PushOutcome) (pending : List (OutboxEntry Payload))

/-- A replica and the flushes of its processes. What follows `flushes` only records
the run: where the log ended at its start, what local commands committed since, what
the server has and what it ever refused. -/
structure Replica (Payload : Type) where
  log : List (LogEvent Payload)
  latestSeq : Nat
  outbox : List (OutboxEntry Payload)
  nextId : Nat
  rejected : List Nat
  unconfirmed : List EventId
  logChecked : Bool
  flushes : Nat → Option (Flush Payload)
  base : Nat
  committed : List EventId
  server : List EventId
  refused : List EventId

variable {Payload : Type}

/-- Queue an event behind everything this device has queued. -/
def enqueueNext (replica : Replica Payload) (event : LogEvent Payload) : Replica Payload :=
  let last := (replica.outbox.map OutboxEntry.originSeq).foldr max 0
  { replica with
    outbox := replica.outbox ++ [⟨replica.nextId, last + 1, event, false⟩]
    nextId := replica.nextId + 1 }

def appendTx (replica : Replica Payload) (id : EventId) (payload : Payload) : Replica Payload :=
  { replica with
    log := replica.log ++ [⟨id, replica.latestSeq + 1, payload⟩]
    latestSeq := replica.latestSeq + 1 }

def appendLocal (replica : Replica Payload) (event : EventId × Payload) : Replica Payload :=
  { enqueueNext (appendTx replica event.1 event.2) ⟨event.1, replica.latestSeq + 1, event.2⟩ with
    committed := replica.committed ++ [event.1] }

/-- The events of one command commit together. -/
def appendBatch (replica : Replica Payload) (events : List (EventId × Payload)) : Replica Payload :=
  events.foldl appendLocal replica

section

variable (targetTask : Payload → Option TaskId)

/-- Pending events in the order of the local log. -/
def pending (replica : Replica Payload) : List (OutboxEntry Payload) :=
  orderBy (fun entry => entry.event.seq) (orderBy OutboxEntry.originSeq
    (replica.outbox.filter fun entry => !entry.flushed && entry.id ∉ replica.rejected))

def unconfirmedEvents (replica : Replica Payload) : List (LogEvent Payload) :=
  replica.log.filter fun event => event.id ∈ replica.unconfirmed

/-- Where the first held event of each task sits in the log. -/
def heldTasks (replica : Replica Payload) : List (TaskId × Nat) :=
  (unconfirmedEvents replica).filterMap fun event => (targetTask event.payload).map fun task => (task, event.seq)

def waitsForHeld (held : List (TaskId × Nat)) (entry : OutboxEntry Payload) : Bool :=
  ((targetTask entry.event.payload).bind fun task => held.lookup task).any fun first => first < entry.event.seq

/-- Pending events that may go out now. What follows a held event of the same task
stays behind it. -/
def sendable (held : List (TaskId × Nat)) (replica : Replica Payload) (limit : Nat) : List (OutboxEntry Payload) :=
  if held.isEmpty then (pending replica).take (max limit 1)
  else ((pending replica).filter fun entry => !waitsForHeld targetTask held entry).take (max limit 1)

end

def markFlushed (replica : Replica Payload) (id : Nat) : Replica Payload :=
  { replica with outbox := replica.outbox.map fun entry =>
      if entry.id = id then { entry with flushed := true } else entry }

/-- Move an entry to the dead letters. -/
def markRejected (replica : Replica Payload) (id : Nat) : Replica Payload :=
  { replica with rejected := id :: replica.rejected }

def record (replica : Replica Payload) (entry : OutboxEntry Payload) : PushOutcome → Replica Payload
  | .accepted => markFlushed replica entry.id
  | .rejected => markRejected replica entry.id

def answer (replica : Replica Payload) (id : EventId) : PushOutcome → Replica Payload
  | .accepted => { replica with server := id :: replica.server }
  | .rejected => { replica with refused := id :: replica.refused }

/-- Return every dead letter to the queue. -/
def requeueRejected (replica : Replica Payload) : Replica Payload := { replica with rejected := [] }

def queued (replica : Replica Payload) (id : EventId) : Bool :=
  replica.outbox.any fun entry => entry.event.id = id

/-- Put on record what an older binary can have logged up to `localTip` and never
queued. What the server already has is left out. -/
def findLost (candidate : LogEvent Payload → Bool) (replica : Replica Payload) (localTip : Nat)
    (serverIds : List EventId) : Replica Payload :=
  let lost := replica.log.filter fun event =>
    event.seq ≤ localTip && candidate event && !queued replica event.id && event.id ∉ serverIds
  { replica with
    unconfirmed := replica.unconfirmed ++ lost.map LogEvent.id
    logChecked := true }

/-- Queue the events on record, but for those that the server has by now. -/
def restoreLost (replica : Replica Payload) (serverIds : List EventId) : Replica Payload :=
  { ((unconfirmedEvents replica).filter fun event => event.id ∉ serverIds).foldl enqueueNext replica with
    unconfirmed := [] }

def setFlush (replica : Replica Payload) (n : Nat) (flush : Option (Flush Payload)) : Replica Payload :=
  { replica with flushes := Function.update replica.flushes n flush }

/-- One step of any process of the device, or of the server. `candidate` tells the
events that an older binary can have lost. -/
inductive Step (targetTask : Payload → Option TaskId) (candidate : LogEvent Payload → Bool) :
    Replica Payload → Replica Payload → Prop where
  | commit {replica : Replica Payload} (events : List (EventId × Payload)) (hDistinct : (events.map Prod.fst).Nodup)
      (hFresh : ∀ id ∈ events.map Prod.fst, id ∉ replica.log.map LogEvent.id) :
      Step targetTask candidate replica (appendBatch replica events)
  /-- An event that comes from the server bypasses the queue. -/
  | incoming {replica : Replica Payload} (id : EventId) (payload : Payload) (hServer : id ∈ replica.server)
      (hFresh : id ∉ replica.log.map LogEvent.id) : Step targetTask candidate replica (appendTx replica id payload)
  /-- The server takes an event from elsewhere, or one whose answer is lost. -/
  | served {replica : Replica Payload} (id : EventId) :
      Step targetTask candidate replica { replica with server := id :: replica.server }
  /-- The tip and the ids of the server were read earlier. -/
  | findLost {replica : Replica Payload} (localTip : Nat) (serverIds : List EventId) (hTip : replica.base ≤ localTip)
      (hIds : ∀ id ∈ serverIds, id ∈ replica.server) :
      Step targetTask candidate replica (findLost candidate replica localTip serverIds)
  | restoreLost {replica : Replica Payload} (serverIds : List EventId) (hIds : ∀ id ∈ serverIds, id ∈ replica.server) :
      Step targetTask candidate replica (restoreLost replica serverIds)
  | requeue {replica : Replica Payload} : Step targetTask candidate replica (requeueRejected replica)
  /-- A sync flushes after it has searched the log. -/
  | startFlush {replica : Replica Payload} (n : Nat) (hNew : replica.flushes n = none)
      (hChecked : replica.logChecked = true) :
      Step targetTask candidate replica (setFlush replica n (some (.reading (heldTasks targetTask replica))))
  | readPending {replica : Replica Payload} (n : Nat) (held : List (TaskId × Nat)) (limit : Nat)
      (hReading : replica.flushes n = some (.reading held)) :
      Step targetTask candidate replica
        (setFlush replica n (some (.pushing (sendable targetTask held replica limit))))
  | push {replica : Replica Payload} (n : Nat) (entry : OutboxEntry Payload) (rest : List (OutboxEntry Payload))
      (outcome : PushOutcome) (hPushing : replica.flushes n = some (.pushing (entry :: rest))) :
      Step targetTask candidate replica
        (setFlush (answer replica entry.event.id outcome) n (some (.marking entry outcome rest)))
  | mark {replica : Replica Payload} (n : Nat) (entry : OutboxEntry Payload) (rest : List (OutboxEntry Payload))
      (outcome : PushOutcome) (hMarking : replica.flushes n = some (.marking entry outcome rest)) :
      Step targetTask candidate replica (setFlush (record replica entry outcome) n (some (.pushing rest)))
  /-- A flush ends: at its end, at a failure, or with its process. -/
  | stop {replica : Replica Payload} (n : Nat) : Step targetTask candidate replica (setFlush replica n none)

/-- A replica as an older binary left it, with its log and nothing in the queue. -/
def left (log : List (LogEvent Payload)) : Replica Payload where
  log := log
  latestSeq := (log.map LogEvent.seq).foldr max 0
  outbox := []
  nextId := 1
  rejected := []
  unconfirmed := []
  logChecked := false
  flushes _ := none
  base := (log.map LogEvent.seq).foldr max 0
  committed := []
  server := []
  refused := []

end Outbox
end Daruma
