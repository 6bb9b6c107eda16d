import Daruma.Sync.Hub

/-! What the channels of the hub hold: each a block of the published events without
a gap, up to the place of the fan-out as long as it is open. -/
namespace Daruma

open List
namespace Hub

open Transition (Trace Preserves)

variable {Event : Type} {capacity : Nat} {hub hub' : State Event} {id : SubscriptionId} {channel : Channel Event}

/-- The block of a channel starts with what the fan-out took up next, or had in
hand, when the subscription was made. Nothing published later is in front of it. -/
structure Starts (channel : Channel Event) (first : Nat) : Prop where
  le_since : first ≤ channel.since
  cursor : first = channel.cursor ∨ first + 1 = channel.cursor

def IsBlock (published : List Event) (first : Nat) (events : List Event) : Prop :=
  events = (published.drop first).take events.length

variable {published events : List Event} {first next : Nat} {event : Event} {id' : SubscriptionId}
  {channel' : Channel Event} {late : SubscriptionId → Bool}

theorem IsBlock.nil : IsBlock published first [] := take_zero.symm

theorem IsBlock.take (h : IsBlock published first events) (n : Nat) : IsBlock published first (events.take n) := by
  unfold IsBlock at *
  rw [length_take, ← take_take, ← h]

theorem IsBlock.publish (h : IsBlock published first events) (hLe : first + events.length ≤ published.length) :
    IsBlock (published ++ [event]) first events := by
  unfold IsBlock at *
  rw [drop_append_of_le_length (by omega), take_append_of_le_length (by rw [length_drop]; omega), ← h]

theorem IsBlock.snoc (h : IsBlock published first events) (hNext : published[first + events.length]? = some event) :
    IsBlock published first (events ++ [event]) := by
  unfold IsBlock at *
  rw [length_append, length_singleton, take_add_one, ← h, getElem?_drop, hNext]
  rfl

/-- How far an open channel has got. -/
def UpTo (next : Nat) (id : SubscriptionId) (channel : Channel Event) (first : Nat) : Pass Event → Prop
  | .waiting => first + channel.sent.length = next
  | .sending _ due late =>
    if due id then first + channel.sent.length + 1 = next
    else first + channel.sent.length = next ∧ (late id = true → channel.sent = [] ∧ channel.cursor = next)
  -- What the pass is yet to drop may have missed the events that the ring lost.
  | .clearing due _ => due id = true ∨ first + channel.sent.length = next

/-- A channel holds one block, which goes as far as the fan-out has got unless the
channel is closed. -/
def Placed (hub : State Event) (id : SubscriptionId) (channel : Channel Event) : Prop :=
  ∃ first, Starts channel first ∧ IsBlock hub.published first channel.sent ∧
    first + channel.sent.length ≤ hub.next ∧
    (channel.registered = true → UpTo hub.next id channel first hub.pass)

/-- Those that a pass is yet to reach. -/
def Pass.due : Pass Event → SubscriptionId → Bool
  | .waiting => fun _ => false
  | .sending _ due _ => due
  | .clearing due _ => due

structure Sound (hub : State Event) : Prop where
  inLog : hub.next ≤ hub.published.length
  known : ∀ id, hub.pass.due id = true → hub.channels id ≠ none
  inHand : ∀ event due late, hub.pass = .sending event due late →
    ∃ n, hub.next = n + 1 ∧ hub.published[n]? = some event
  placed : ∀ id channel, hub.channels id = some channel → Placed hub id channel

theorem sound_start : Sound (start : State Event) where
  inLog := Nat.le_refl 0
  known _ hDue := by cases hDue
  inHand _ _ _ hPass := by cases hPass
  placed _ _ hChannel := by cases hChannel

theorem known_update (h : hub.channels id' ≠ none) : Function.update hub.channels id (some channel) id' ≠ none := by
  by_cases hId : id' = id
  · rw [hId, Function.update_self]
    exact Option.some_ne_none channel
  · rw [Function.update_of_ne hId]
    exact h

theorem channel_update (h : Function.update hub.channels id (some channel) id' = some channel') :
    (id' = id ∧ channel' = channel) ∨ (id' ≠ id ∧ hub.channels id' = some channel') := by
  by_cases hId : id' = id
  · subst hId
    rw [Function.update_self] at h
    exact .inl ⟨rfl, (Option.some.inj h).symm⟩
  · rw [Function.update_of_ne hId] at h
    exact .inr ⟨hId, h⟩

theorem Sound.write (h : Sound hub) (hPlaced : Placed hub id channel) : Sound (setChannel hub id channel) where
  inLog := h.inLog
  known id' hDue := known_update (h.known id' hDue)
  inHand := h.inHand
  placed id' channel' hChannel := by
    obtain ⟨rfl, rfl⟩ | ⟨_, hBefore⟩ := channel_update hChannel
    · exact hPlaced
    · exact h.placed id' channel' hBefore

theorem Placed.congr (h : Placed hub id channel) (hSent : channel'.sent = channel.sent)
    (hSince : channel'.since = channel.since) (hCursor : channel'.cursor = channel.cursor)
    (hRegistered : channel'.registered = true → channel.registered = true) : Placed hub id channel' := by
  obtain ⟨first, hStarts, hBlock, hLe, hUpTo⟩ := h
  refine ⟨first, ⟨hSince ▸ hStarts.le_since, hCursor ▸ hStarts.cursor⟩, hSent ▸ hBlock, hSent ▸ hLe, fun hOpen => ?_⟩
  have hBefore := hUpTo (hRegistered hOpen)
  unfold UpTo at *
  rw [hSent, hCursor]
  exact hBefore

theorem Placed.publish (h : Placed hub id channel) (hLe : hub.next ≤ hub.published.length) :
    Placed { hub with published := hub.published ++ [event] } id channel := by
  obtain ⟨first, hStarts, hBlock, hUntil, hUpTo⟩ := h
  exact ⟨first, hStarts, hBlock.publish (Nat.le_trans hUntil hLe), hUntil, hUpTo⟩

theorem Sound.publish (h : Sound hub) : Sound { hub with published := hub.published ++ [event] } where
  inLog := by
    have hLe := h.inLog
    simp only [length_append, length_singleton]
    omega
  known := h.known
  inHand event due late hPass := by
    obtain ⟨n, hNext, hEvent⟩ := h.inHand event due late hPass
    exact ⟨n, hNext, List.getElem?_append_left (List.getElem?_eq_some_iff.mp hEvent).1 ▸ hEvent⟩
  placed id channel hChannel := (h.placed id channel hChannel).publish h.inLog

theorem upTo_join (hId : id' ≠ id) (pass : Pass Event) :
    UpTo next id' channel first (pass.join id) ↔ UpTo next id' channel first pass := by
  cases pass with
  | waiting | clearing => exact Iff.rfl
  | sending event due late => simp only [Pass.join, UpTo, Function.update_of_ne hId]

theorem due_join (pass : Pass Event) : (pass.join id).due = pass.due := by
  cases pass <;> rfl

theorem Sound.subscribe (h : Sound hub) (hFresh : hub.channels id = none) : Sound (subscribeWs hub id) where
  inLog := h.inLog
  known id' hDue := known_update (h.known id' (congrFun (due_join hub.pass) id' ▸ hDue))
  inHand event due late hPass := by
    unfold subscribeWs at hPass
    cases hBefore : hub.pass with
    | waiting | clearing =>
      rw [hBefore] at hPass
      cases hPass
    | sending event' due' late' =>
      rw [hBefore] at hPass
      cases hPass
      exact h.inHand _ _ _ hBefore
  placed id' channel' hChannel := by
    obtain ⟨rfl, rfl⟩ | ⟨hId, hBefore⟩ := channel_update hChannel
    · refine ⟨hub.next, ⟨h.inLog, .inl rfl⟩, .nil, Nat.le_refl _, fun _ => ?_⟩
      change UpTo hub.next _ _ _ (hub.pass.join _)
      cases hPass : hub.pass with
      | waiting => exact rfl
      | clearing => exact .inr rfl
      | sending event due late =>
        have hDue : due id' = false := by
          by_contra hIn
          refine h.known id' ?_ hFresh
          rw [hPass]
          exact Bool.not_eq_false _ ▸ hIn
        rw [Pass.join, UpTo, if_neg (hDue ▸ Bool.false_ne_true)]
        exact ⟨rfl, fun _ => ⟨rfl, rfl⟩⟩
    · obtain ⟨first, hStarts, hBlock, hUntil, hUpTo⟩ := h.placed id' channel' hBefore
      exact ⟨first, hStarts, hBlock, hUntil, fun hOpen => (upTo_join hId _).mpr (hUpTo hOpen)⟩

theorem Sound.recv (h : Sound hub) (hWaiting : hub.pass = .waiting) : Sound (recv capacity hub) := by
  unfold Hub.recv
  have hPlaced : ∀ {id channel}, hub.channels id = some channel → ∃ first, Starts channel first ∧
      IsBlock hub.published first channel.sent ∧ first + channel.sent.length ≤ hub.next ∧
      (channel.registered = true → first + channel.sent.length = hub.next) := by
    intro id channel hChannel
    obtain ⟨first, hStarts, hBlock, hUntil, hUpTo⟩ := h.placed id channel hChannel
    rw [hWaiting] at hUpTo
    exact ⟨first, hStarts, hBlock, hUntil, hUpTo⟩
  have hKnown : ∀ id, registered hub id = true → hub.channels id ≠ none := by
    intro id hIn hNone
    rw [registered, hNone] at hIn
    cases hIn
  have hDue : ∀ {id channel}, hub.channels id = some channel → channel.registered = true → registered hub id = true := by
    intro id channel hChannel hOpen
    rw [registered, hChannel]
    exact hOpen
  split
  · exact h
  · rename_i event hEvent
    have hInLog := (List.getElem?_eq_some_iff.mp hEvent).1
    split
    · refine ⟨hInLog, hKnown, fun event' due late hPass => ?_, fun id channel hChannel => ?_⟩
      · cases hPass
        exact ⟨hub.next, rfl, hEvent⟩
      · obtain ⟨first, hStarts, hBlock, hUntil, hUpTo⟩ := hPlaced hChannel
        refine ⟨first, hStarts, hBlock, Nat.le_succ_of_le hUntil, fun hOpen => ?_⟩
        simp only [UpTo, hDue hChannel hOpen, if_true]
        exact congrArg Nat.succ (hUpTo hOpen)
    · rename_i hLagged
      refine ⟨Nat.sub_le _ _, hKnown, fun _ _ _ hPass => (by cases hPass), fun id channel hChannel => ?_⟩
      obtain ⟨first, hStarts, hBlock, hUntil, _⟩ := hPlaced hChannel
      refine ⟨first, hStarts, hBlock, ?_, fun hOpen => .inl (hDue hChannel hOpen)⟩
      have hNext : hub.next ≤ hub.published.length - capacity := by omega
      exact Nat.le_trans hUntil hNext

variable {due : SubscriptionId → Bool}

theorem upTo_reach (hId : id' ≠ id) :
    UpTo next id' channel first (.sending event (Function.update due id false) (Function.update late id false)) ↔
      UpTo next id' channel first (.sending event due late) := by
  simp only [UpTo, Function.update_of_ne hId]

theorem due_update (h : Function.update due id false id' = true) : due id' = true := by
  by_cases hId : id' = id
  · rw [hId, Function.update_self] at h
    cases h
  · rwa [Function.update_of_ne hId] at h

theorem Placed.send {n : Nat} (h : Placed hub id channel)
    (hPass : hub.pass = .sending event due late) (hNext : hub.next = n + 1) (hEvent : hub.published[n]? = some event)
    (hRegistered : channel.registered = true) (hReached : (due id || late id) = true) :
    Placed { hub with pass := .sending event (Function.update due id false) (Function.update late id false) } id
      (channel.trySend event) := by
  obtain ⟨first, hStarts, hBlock, hUntil, hUpTo⟩ := h
  unfold Channel.trySend
  split
  · exact ⟨first, ⟨hStarts.le_since, hStarts.cursor⟩, hBlock, hUntil, fun hOpen => by cases hOpen⟩
  · have hSent : (channel.sent ++ [event]).length = channel.sent.length + 1 := length_append
    -- A late subscriber is reached with the event that was in hand when it came.
    obtain ⟨first, hStarts, hBlock, hEnd⟩ : ∃ first, Starts channel first ∧
        IsBlock hub.published first channel.sent ∧ first + channel.sent.length = n := by
      have hAt := hUpTo hRegistered
      rw [hPass, UpTo] at hAt
      by_cases hDue : due id = true
      · rw [if_pos hDue] at hAt
        exact ⟨first, hStarts, hBlock, by omega⟩
      · rw [if_neg hDue] at hAt
        have hLate : late id = true := by
          rw [Bool.not_eq_true] at hDue
          rwa [hDue, Bool.false_or] at hReached
        obtain ⟨hEmpty, hCursor⟩ := hAt.2 hLate
        have hSince := hStarts.le_since
        refine ⟨n, ⟨?_, .inr (by omega)⟩, hEmpty ▸ .nil, by rw [hEmpty]; rfl⟩
        have hLength : channel.sent.length = 0 := by rw [hEmpty]; rfl
        omega
    refine ⟨first, ⟨hStarts.le_since, hStarts.cursor⟩, hBlock.snoc (hEnd ▸ hEvent), ?_, fun _ => ?_⟩
    · change first + (channel.sent ++ [event]).length ≤ hub.next
      omega
    · rw [UpTo, if_neg (by rw [Function.update_self]; exact Bool.false_ne_true)]
      refine ⟨?_, fun hLate => ?_⟩
      · change first + (channel.sent ++ [event]).length = hub.next
        omega
      · rw [Function.update_self] at hLate
        cases hLate

theorem Sound.send (h : Sound hub)
    (hPass : hub.pass = .sending event due late) (hChannel : hub.channels id = some channel)
    (hRegistered : channel.registered = true) (hReached : (due id || late id) = true) :
    Sound { setChannel hub id (channel.trySend event) with
      pass := .sending event (Function.update due id false) (Function.update late id false) } := by
  obtain ⟨n, hNext, hEvent⟩ := h.inHand _ _ _ hPass
  refine ⟨h.inLog, fun id' hDue => known_update (h.known id' ?_), fun event' due' late' hSame => ?_,
    fun id' channel' hAfter => ?_⟩
  · rw [hPass]
    exact due_update hDue
  · cases hSame
    exact ⟨n, hNext, hEvent⟩
  · obtain ⟨rfl, rfl⟩ | ⟨hId, hBefore⟩ := channel_update hAfter
    · exact (h.placed _ _ hChannel).send hPass hNext hEvent hRegistered hReached
    · obtain ⟨first, hStarts, hBlock, hUntil, hUpTo⟩ := h.placed id' channel' hBefore
      rw [hPass] at hUpTo
      exact ⟨first, hStarts, hBlock, hUntil, fun hOpen => (upTo_reach hId).mpr (hUpTo hOpen)⟩

theorem Sound.clear (h : Sound hub) (hPass : hub.pass = .clearing due late)
    (hChannel : hub.channels id = some channel) : Sound { setChannel hub id { channel with registered := false } with
      pass := .clearing (Function.update due id false) (Function.update late id false) } := by
  refine ⟨h.inLog, fun id' hDue => known_update (h.known id' ?_), fun _ _ _ hSame => (by cases hSame),
    fun id' channel' hAfter => ?_⟩
  · rw [hPass]
    exact due_update hDue
  · obtain ⟨rfl, rfl⟩ | ⟨hId, hBefore⟩ := channel_update hAfter
    · obtain ⟨first, hStarts, hBlock, hUntil, _⟩ := h.placed _ _ hChannel
      exact ⟨first, ⟨hStarts.le_since, hStarts.cursor⟩, hBlock, hUntil, fun hOpen => by cases hOpen⟩
    · obtain ⟨first, hStarts, hBlock, hUntil, hUpTo⟩ := h.placed id' channel' hBefore
      rw [hPass] at hUpTo
      refine ⟨first, hStarts, hBlock, hUntil, fun hOpen => (hUpTo hOpen).imp_left fun hDue => ?_⟩
      rwa [Function.update_of_ne hId]

theorem Sound.finish (h : Sound hub) (hDone : ∀ id, hub.pass.due id = true → registered hub id = false) :
    Sound { hub with pass := .waiting } := by
  refine ⟨h.inLog, fun _ hDue => (by cases hDue), fun _ _ _ hPass => (by cases hPass), fun id channel hChannel => ?_⟩
  obtain ⟨first, hStarts, hBlock, hUntil, hUpTo⟩ := h.placed id channel hChannel
  refine ⟨first, hStarts, hBlock, hUntil, fun hOpen => ?_⟩
  have hNotDue : hub.pass.due id ≠ true := by
    intro hDue
    have hGone := hDone id hDue
    rw [registered, hChannel, Option.any_some, hOpen] at hGone
    cases hGone
  have hAt := hUpTo hOpen
  cases hPass : hub.pass with
  | waiting => rwa [hPass] at hAt
  | sending event due late =>
    rw [hPass] at hAt hNotDue
    rw [UpTo, if_neg (show ¬due id = true from hNotDue)] at hAt
    exact hAt.1
  | clearing due late =>
    rw [hPass] at hAt hNotDue
    exact hAt.resolve_left hNotDue

theorem sound_step : Preserves (Step capacity) (Sound : State Event → Prop) := by
  intro hub hub' hStep h
  cases hStep with
  | publish event => exact h.publish
  | subscribe id hFresh => exact h.subscribe hFresh
  | take id channel hChannel _ => exact h.write ((h.placed id channel hChannel).congr rfl rfl rfl fun hOpen => hOpen)
  | hangUp id channel hChannel => exact h.write ((h.placed id channel hChannel).congr rfl rfl rfl fun hOpen => hOpen)
  | unsubscribe id channel hChannel =>
    exact h.write ((h.placed id channel hChannel).congr rfl rfl rfl fun hOpen => by cases hOpen)
  | recv hWaiting => exact h.recv hWaiting
  | send event due late hPass id channel hChannel hRegistered hReached =>
    exact h.send hPass hChannel hRegistered hReached
  | clear due late hPass id channel hChannel hReached => exact h.clear hPass hChannel
  | finishSending event due late hPass hDone =>
    exact h.finish fun id hDue => hDone id (by rwa [hPass] at hDue)
  | finishClearing due late hPass hDone => exact h.finish fun id hDue => hDone id (by rwa [hPass] at hDue)

/-- What a subscriber got is a block that starts with what the fan-out took up next,
or had in hand, when the subscription was made, so no later than what was published
after it. Whenever the fan-out waits for the bus, every event from the start of the
block that it took off the bus was sent, or the channel is closed. -/
theorem fanout_no_gap {hub : State Event} (h : Trace (Step capacity) start hub)
    (hChannel : hub.channels id = some channel) :
    ∃ first, Starts channel first ∧ IsBlock hub.published first channel.received ∧
      (hub.pass = .waiting → channel.closed = false →
        IsBlock hub.published first channel.sent ∧ first + channel.sent.length = hub.next) := by
  have hSound : Sound hub := sound_step.trace h sound_start
  obtain ⟨first, hStarts, hBlock, _, hUpTo⟩ := hSound.placed id channel hChannel
  refine ⟨first, hStarts, hBlock.take channel.taken, fun hWaiting hOpen => ⟨hBlock, ?_⟩⟩
  have hRegistered : channel.registered = true := by
    rwa [Channel.closed, Bool.not_eq_false'] at hOpen
  have hAt := hUpTo hRegistered
  rwa [hWaiting] at hAt

private def watcher : SubscriptionId := ⟨1⟩

/-- One event was published before the subscription was made. -/
private def joined : State Nat := subscribeWs { (start : State Nat) with published := [7] } watcher

/-- The fan-out takes the event off the bus, and sends it. -/
private def sent : State Nat :=
  { setChannel joined watcher ⟨[7], 0, true, true, 1, 0⟩ with
    next := 1
    pass := .sending 7 (Function.update (registered joined) watcher false) (Function.update (fun _ => false) watcher false) }

private def watched : Channel Nat := ⟨[7], 1, true, true, 1, 0⟩

/-- The receiver takes it, and the pass ends. -/
private def delivered : State Nat := { setChannel sent watcher watched with pass := .waiting }

private theorem delivered_channel : delivered.channels watcher = some watched := rfl

private theorem reaches_delivered : Trace (Step 1024) start delivered := by
  have hPublish : Step 1024 (start : State Nat) { (start : State Nat) with published := [7] } := .publish 7
  have hJoin : Step 1024 { (start : State Nat) with published := [7] } joined := .subscribe watcher rfl
  have hRecv : Step 1024 joined (recv 1024 joined) := .recv rfl
  have hSend : Step 1024 (recv 1024 joined) sent :=
    .send 7 (registered joined) (fun _ => false) rfl watcher ⟨[], 0, true, true, 1, 0⟩ rfl rfl rfl
  have hTake : Step 1024 sent (setChannel sent watcher watched) :=
    .take watcher ⟨[7], 0, true, true, 1, 0⟩ rfl Nat.one_pos
  have hFinish : Step 1024 (setChannel sent watcher watched) delivered := by
    refine .finishSending 7 _ _ rfl fun id hDue => ?_
    by_cases hId : id = watcher
    · rw [hId, Function.update_self] at hDue
      cases hDue
    · rw [Function.update_of_ne hId] at hDue
      have hNone : joined.channels id = none := Function.update_of_ne hId ..
      rw [registered, hNone] at hDue
      cases hDue
  exact (((((Relation.ReflTransGen.single hPublish).tail hJoin).tail hRecv).tail hSend).tail hTake).tail hFinish

theorem fanout_no_gap_delivered : ∃ first, Starts watched first ∧
    IsBlock delivered.published first watched.received ∧ (delivered.pass = .waiting → watched.closed = false →
      IsBlock delivered.published first watched.sent ∧ first + watched.sent.length = delivered.next) :=
  fanout_no_gap reaches_delivered delivered_channel

/-- A subscriber gets an event that was published before it subscribed. -/
theorem earlier_event_received : ¬∀ (hub : State Nat) (id : SubscriptionId) (channel : Channel Nat),
    Trace (Step 1024) start hub → hub.channels id = some channel →
      IsBlock hub.published channel.since channel.received := by
  intro hClaim
  cases hClaim delivered watcher watched reaches_delivered delivered_channel

end Hub
end Daruma
