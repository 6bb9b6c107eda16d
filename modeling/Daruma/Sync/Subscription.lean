import Daruma.Events.Event
import Daruma.Sync.Hub

/-! A subscription of a WebSocket connection: a page of the history, then what the hub
hands on. Commits, publishes, the fan-out, the writer of the connection and its
client move between any two steps of it. -/
namespace Daruma

namespace WsSession

open Hub (wsSubscriberChannel)

def snapshotPage : Nat := 1000

/-- What a client asked for. The filters read the projections, `none` where a read
fails. -/
structure Subscription (View : Type) where
  id : SubscriptionId
  since : Option Nat
  passes : Option View → EventEnvelope → Bool

/-- A frame to the client. `plain` are those that show no event. -/
inductive Frame where
  | snapshot (id : SubscriptionId) (since : Nat) (events : List EventEnvelope) (hasMore : Bool) (nextSeq : Option Nat)
  | event (id : SubscriptionId) (envelope : EventEnvelope)
  | close
  | plain

/-- How far the handling of the last subscription has got. -/
inductive Stage (View : Type) where
  | idle
  | registered (sub : Subscription View)
  | bounded (sub : Subscription View) (boundary : Nat)
  | paging (sub : Subscription View) (boundary : Nat) (page todo shown : List EventEnvelope)
  | live (sub : Subscription View) (boundary : Nat)
  /-- The forwarder has ended, and is about to say so. -/
  | closing
  | ended

def Stage.subscription {View : Type} : Stage View → Option SubscriptionId
  | .registered sub | .bounded sub _ | .paging sub .. | .live sub _ => some sub.id
  | .idle | .closing | .ended => none

/-- The next frame of the client is read. -/
def Stage.reading {View : Type} : Stage View → Bool
  | .idle | .live .. | .closing | .ended => true
  | .registered _ | .bounded .. | .paging .. => false

/-- The log, the projections, the hub and one connection. `frames` are all that were
put in the outgoing queue, of which the writer has sent the first `written`.
`rejected` only records what a filter turned away, and by which projections. -/
structure Session (View : Type) where
  log : List EventEnvelope
  view : View
  hub : Hub.State EventEnvelope
  stage : Stage View
  frames : List Frame
  written : Nat
  rejected : List (Subscription View × View × EventEnvelope)
  gone : Bool

variable {View : Type}

/-- A connection before its first subscription. -/
def start (view : View) : Session View := ⟨[], view, Hub.start, .idle, [], 0, [], false⟩

/-- The events after a sequence number, as many as a page holds. -/
def loadSince (log : List EventEnvelope) (since : Nat) : List EventEnvelope :=
  (log.filter fun envelope => since < envelope.seq).take snapshotPage

def filterHistory (history : List EventEnvelope) (boundary : Nat) : List EventEnvelope :=
  history.filter fun envelope => envelope.seq ≤ boundary

def Session.hasRoom (s : Session View) : Bool := s.frames.length - s.written < wsSubscriberChannel

/-- Put a frame in the outgoing queue, or drop it. -/
def Session.trySend (s : Session View) (frame : Frame) : Session View :=
  if s.hasRoom then { s with frames := s.frames ++ [frame] } else s

/-- A filter has answered on the projections as they are. -/
def Session.reject (s : Session View) (sub : Subscription View) (envelope : EventEnvelope) : Session View :=
  { s with rejected := s.rejected ++ [(sub, s.view, envelope)] }

def snapshotFrame (id : SubscriptionId) (since : Nat) (page shown : List EventEnvelope) : Frame :=
  .snapshot id since shown (snapshotPage ≤ page.length) (page.getLast?.map EventEnvelope.seq)

/-- The forwarder has taken an event of its channel. `view` is what the filters read. -/
def Session.forward (s : Session View) (sub : Subscription View) (boundary : Nat) (view : Option View)
    (envelope : EventEnvelope) : Session View :=
  if envelope.seq ≤ boundary then s
  else if !sub.passes view envelope then if view.isSome then s.reject sub envelope else s
  else if s.hasRoom then { s with frames := s.frames ++ [.event sub.id envelope] }
  else { s with stage := .closing }

/-- One step of any of the parties. With `faults` a read may fail, and a snapshot or a
close frame may find the queue full. -/
inductive Step (capacity : Nat) (faults : Bool) : Session View → Session View → Prop where
  | append {s : Session View} (envelope : EventEnvelope) :
      Step capacity faults s { s with log := s.log ++ [{ envelope with seq := s.log.length + 1 }] }
  | project {s : Session View} (view : View) : Step capacity faults s { s with view := view }
  | publish {s : Session View} (envelope : EventEnvelope) (hLogged : envelope ∈ s.log)
      (hNew : envelope ∉ s.hub.published) :
      Step capacity faults s { s with hub := { s.hub with published := s.hub.published ++ [envelope] } }
  /-- The fan-out and the other connections. -/
  | fanout {s : Session View} (hub : Hub.State EventEnvelope) (hStep : Hub.Step capacity s.hub hub)
      (hBus : hub.published = s.hub.published)
      (hTaken : ∀ id, s.stage.subscription = some id →
        (hub.channels id).map Hub.Channel.taken = (s.hub.channels id).map Hub.Channel.taken) :
      Step capacity faults s { s with hub := hub }
  /-- A client subscribes, and the forwarder of the subscription before is aborted. -/
  | subscribe {s : Session View} (sub : Subscription View) (hReading : s.stage.reading = true)
      (hFresh : s.hub.channels sub.id = none) :
      Step capacity faults s { s with hub := Hub.subscribeWs s.hub sub.id, stage := .registered sub }
  | readBoundary {s : Session View} (sub : Subscription View) (hStage : s.stage = .registered sub) :
      Step capacity faults s { s with stage := .bounded sub s.log.length }
  | boundaryFails {s : Session View} (hFaults : faults = true) (sub : Subscription View)
      (hStage : s.stage = .registered sub) : Step capacity faults s { s with stage := .bounded sub 0 }
  | load {s : Session View} (sub : Subscription View) (boundary since : Nat) (hStage : s.stage = .bounded sub boundary)
      (hSince : sub.since = some since) : Step capacity faults s { s with
        stage := .paging sub boundary (filterHistory (loadSince s.log since) boundary)
          (filterHistory (loadSince s.log since) boundary) [] }
  | loadFails {s : Session View} (hFaults : faults = true) (sub : Subscription View) (boundary since : Nat)
      (hStage : s.stage = .bounded sub boundary) (hSince : sub.since = some since) :
      Step capacity faults s { s with stage := .paging sub boundary [] [] [] }
  | noHistory {s : Session View} (sub : Subscription View) (boundary : Nat) (hStage : s.stage = .bounded sub boundary)
      (hSince : sub.since = none) : Step capacity faults s { s with stage := .live sub boundary }
  | keep {s : Session View} (sub : Subscription View) (boundary : Nat) (page : List EventEnvelope)
      (envelope : EventEnvelope) (todo shown : List EventEnvelope)
      (hStage : s.stage = .paging sub boundary page (envelope :: todo) shown) (view : Option View)
      (hView : view = some s.view ∨ faults = true) (hPasses : sub.passes view envelope = true) :
      Step capacity faults s { s with stage := .paging sub boundary page todo (shown ++ [envelope]) }
  | hide {s : Session View} (sub : Subscription View) (boundary : Nat) (page : List EventEnvelope)
      (envelope : EventEnvelope) (todo shown : List EventEnvelope)
      (hStage : s.stage = .paging sub boundary page (envelope :: todo) shown)
      (hPasses : sub.passes (some s.view) envelope = false) :
      Step capacity faults s { s.reject sub envelope with stage := .paging sub boundary page todo shown }
  | hideFails {s : Session View} (hFaults : faults = true) (sub : Subscription View) (boundary : Nat)
      (page : List EventEnvelope) (envelope : EventEnvelope) (todo shown : List EventEnvelope)
      (hStage : s.stage = .paging sub boundary page (envelope :: todo) shown)
      (hPasses : sub.passes none envelope = false) :
      Step capacity faults s { s with stage := .paging sub boundary page todo shown }
  | sendSnapshot {s : Session View} (sub : Subscription View) (boundary since : Nat) (page shown : List EventEnvelope)
      (hStage : s.stage = .paging sub boundary page [] shown) (hSince : sub.since = some since)
      (hRoom : s.hasRoom = true ∨ faults = true) : Step capacity faults s
        { s.trySend (snapshotFrame sub.id since page shown) with stage := .live sub boundary }
  /-- The forwarder takes the next event. -/
  | forward {s : Session View} (sub : Subscription View) (boundary : Nat) (hStage : s.stage = .live sub boundary)
      (channel : Hub.Channel EventEnvelope) (hChannel : s.hub.channels sub.id = some channel)
      (envelope : EventEnvelope) (hNext : channel.sent[channel.taken]? = some envelope) (view : Option View)
      (hView : view = some s.view ∨ faults = true) : Step capacity faults s
        (Session.forward { s with hub := Hub.setChannel s.hub sub.id { channel with taken := channel.taken + 1 } }
          sub boundary view envelope)
  /-- The hub has dropped the sender. -/
  | finish {s : Session View} (sub : Subscription View) (boundary : Nat) (hStage : s.stage = .live sub boundary)
      (channel : Hub.Channel EventEnvelope) (hChannel : s.hub.channels sub.id = some channel)
      (hClosed : channel.closed = true) (hDrained : channel.queued = 0) :
      Step capacity faults s { s with stage := .closing }
  | sendClose {s : Session View} (hStage : s.stage = .closing) (hRoom : s.hasRoom = true ∨ faults = true) :
      Step capacity faults s { s.trySend .close with stage := .ended }
  /-- A greeting, a heartbeat, an answer or an error. -/
  | reply {s : Session View} : Step capacity faults s (s.trySend .plain)
  | write {s : Session View} (hQueued : s.written < s.frames.length) :
      Step capacity faults s { s with written := s.written + 1 }
  /-- The connection is lost or refused. -/
  | hangUp {s : Session View} : Step capacity faults s { s with gone := true }

def Session.delivered (s : Session View) : List Frame := s.frames.take s.written

/-- The connection is closed, as far as the client can tell. -/
def Session.Closed (s : Session View) : Prop := s.gone = true ∨ .close ∈ s.delivered

def Frame.shows (id : SubscriptionId) : Frame → List EventEnvelope
  | .snapshot other _ events _ _ => if other = id then events else []
  | .event other envelope => if other = id then [envelope] else []
  | .close | .plain => []

def shownBy (id : SubscriptionId) (frames : List Frame) : List EventEnvelope := frames.flatMap (Frame.shows id)

end WsSession
end Daruma
