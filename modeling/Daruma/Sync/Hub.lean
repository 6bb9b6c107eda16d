import Daruma.Library.Transition
import Mathlib.Logic.Function.Basic

/-! The fan-out of the hub. One task reads the broadcast bus and hands every event
to the channel of each subscriber. A pass over the subscribers takes several
steps, between which events are published and subscribers come and go. The hub
outlives the runs described here. -/
namespace Daruma

/-- The key of a subscription, minted by the hub. -/
structure SubscriptionId where
  uuid : Nat
  deriving DecidableEq

namespace Hub

def wsSubscriberChannel : Nat := 64

/-- The channel of one subscription. `sent` and `taken` count what the fan-out put
in and what the receiver took out; the sender lives while it is registered.
`since` and `cursor` only record when the subscription was made: what had been
published, and what the fan-out had taken from the bus. -/
structure Channel (Event : Type) where
  sent : List Event
  taken : Nat
  receiving : Bool
  registered : Bool
  since : Nat
  cursor : Nat

variable {Event : Type}

/-- What the receiver got. -/
def Channel.received (channel : Channel Event) : List Event := channel.sent.take channel.taken

/-- The receiver is told of the end once it has taken what is left. -/
def Channel.closed (channel : Channel Event) : Bool := !channel.registered

def Channel.queued (channel : Channel Event) : Nat := channel.sent.length - channel.taken

/-- Send without waiting. The sender of a full channel is dropped, and so is one
without a receiver. -/
def Channel.trySend (event : Event) (channel : Channel Event) : Channel Event :=
  if !channel.receiving || wsSubscriberChannel ≤ channel.queued then { channel with registered := false }
  else { channel with sent := channel.sent ++ [event] }

/-- What the fan-out is doing. A pass reaches those of the map at its start, `due`,
and may reach those added to the map since, `late`. -/
inductive Pass (Event : Type) where
  | waiting
  | sending (event : Event) (due late : SubscriptionId → Bool)
  | clearing (due late : SubscriptionId → Bool)

/-- The bus, the fan-out and the subscribers. `published` is all that went over the
bus, of which its ring keeps the last; `next` is the place of the fan-out. -/
structure State (Event : Type) where
  published : List Event
  next : Nat
  pass : Pass Event
  channels : SubscriptionId → Option (Channel Event)

def start : State Event where
  published := []
  next := 0
  pass := .waiting
  channels _ := none

def registered (hub : State Event) (id : SubscriptionId) : Bool :=
  (hub.channels id).any Channel.registered

def setChannel (hub : State Event) (id : SubscriptionId) (channel : Channel Event) : State Event :=
  { hub with channels := Function.update hub.channels id (some channel) }

def Pass.join (id : SubscriptionId) : Pass Event → Pass Event
  | .waiting => .waiting
  | .sending event due late => .sending event due (Function.update late id true)
  | .clearing due late => .clearing due (Function.update late id true)

/-- Register a fresh subscriber with the fan-out. -/
def subscribeWs (hub : State Event) (id : SubscriptionId) : State Event :=
  { setChannel hub id ⟨[], 0, true, true, hub.published.length, hub.next⟩ with pass := hub.pass.join id }

/-- Take the next event off the bus. A receiver that the ring has overtaken is told
that it lagged and goes on with the oldest event that the ring keeps; the fan-out
then drops every subscriber. -/
def recv (capacity : Nat) (hub : State Event) : State Event :=
  match hub.published[hub.next]? with
  | none => hub
  | some event =>
    if hub.published.length - hub.next ≤ capacity then
      { hub with next := hub.next + 1, pass := .sending event (registered hub) fun _ => false }
    else
      { hub with
        next := hub.published.length - capacity
        pass := .clearing (registered hub) fun _ => false }

inductive Step (capacity : Nat) : State Event → State Event → Prop where
  | publish {hub : State Event} (event : Event) :
      Step capacity hub { hub with published := hub.published ++ [event] }
  | subscribe {hub : State Event} (id : SubscriptionId) (hFresh : hub.channels id = none) :
      Step capacity hub (subscribeWs hub id)
  /-- The receiver takes the oldest event of its queue. -/
  | take {hub : State Event} (id : SubscriptionId) (channel : Channel Event) (hChannel : hub.channels id = some channel)
      (hQueued : 0 < channel.queued) : Step capacity hub (setChannel hub id { channel with taken := channel.taken + 1 })
  /-- The connection drops its receiver. -/
  | hangUp {hub : State Event} (id : SubscriptionId) (channel : Channel Event)
      (hChannel : hub.channels id = some channel) :
      Step capacity hub (setChannel hub id { channel with receiving := false })
  /-- The guard of the subscription is dropped. -/
  | unsubscribe {hub : State Event} (id : SubscriptionId) (channel : Channel Event)
      (hChannel : hub.channels id = some channel) :
      Step capacity hub (setChannel hub id { channel with registered := false })
  | recv {hub : State Event} (hWaiting : hub.pass = .waiting) : Step capacity hub (recv capacity hub)
  /-- The pass reaches a subscriber with its event. -/
  | send {hub : State Event} (event : Event) (due late : SubscriptionId → Bool) (hPass : hub.pass = .sending event due late)
      (id : SubscriptionId) (channel : Channel Event) (hChannel : hub.channels id = some channel)
      (hRegistered : channel.registered = true) (hReached : (due id || late id) = true) :
      Step capacity hub { setChannel hub id (channel.trySend event) with
        pass := .sending event (Function.update due id false) (Function.update late id false) }
  /-- The pass drops a subscriber. -/
  | clear {hub : State Event} (due late : SubscriptionId → Bool) (hPass : hub.pass = .clearing due late)
      (id : SubscriptionId) (channel : Channel Event) (hChannel : hub.channels id = some channel)
      (hReached : (due id || late id) = true) :
      Step capacity hub { setChannel hub id { channel with registered := false } with
        pass := .clearing (Function.update due id false) (Function.update late id false) }
  /-- A pass ends when it has reached all that were in the map at its start and
  still are. -/
  | finishSending {hub : State Event} (event : Event) (due late : SubscriptionId → Bool)
      (hPass : hub.pass = .sending event due late) (hDone : ∀ id, due id = true → registered hub id = false) :
      Step capacity hub { hub with pass := .waiting }
  | finishClearing {hub : State Event} (due late : SubscriptionId → Bool) (hPass : hub.pass = .clearing due late)
      (hDone : ∀ id, due id = true → registered hub id = false) : Step capacity hub { hub with pass := .waiting }

end Hub
end Daruma
