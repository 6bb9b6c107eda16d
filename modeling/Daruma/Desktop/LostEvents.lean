import Daruma.Desktop.FlushOrder

/-! What an older binary lost and how it comes back. Processes of the device search the
log, read the log of the server page by page and put on record or queue what is missing
there, while local commands, catch-ups and pushes go on. -/
namespace Daruma

open List

namespace Outbox

open Transition (Trace Preserves)

/-- An event with the columns the search looks at. -/
structure Sourced (Payload : Type) where
  originDeviceId : Option DeviceId
  actor : Actor
  kind : String
  payload : Payload

/-- Every kind the commands of an older binary could log. -/
def oldBinaryKinds : List String :=
  ["task_created", "task_status_changed", "task_completed", "task_closed", "task_deleted"]

variable {Payload : Type}

/-- An event that a command of this device can have made: incoming events keep their
origin, and commands of this device run as the anonymous local user. -/
def fromHere (event : LogEvent (Sourced Payload)) : Bool :=
  event.payload.originDeviceId.isNone && decide (event.payload.actor = .anyUser) &&
    oldBinaryKinds.contains event.payload.kind

/-- Events of the log up to `localTip` that no queue entry covers and that a command of
this device can have made. -/
def lostCandidates (replica : Replica (Sourced Payload)) (localTip : Nat) : List (LogEvent (Sourced Payload)) :=
  replica.log.filter fun event => event.seq ≤ localTip && fromHere event && !queued replica event.id

/-- A row of the server's log. -/
structure ServerEvent where
  seq : Nat
  id : EventId

def fetchEvents (log : List ServerEvent) (since limit : Nat) : List ServerEvent :=
  (log.filter fun event => since < event.seq).take (min limit 1000)

/-- What a call does with the ids of the server once it has them. -/
inductive Purpose where
  | findLost (localTip : Nat)
  | restoreLost

/-- How far a call of a process has got: a search has read the tip of the log and the
cursor, a restoring call has seen events on record, the log of the server is being read,
or it was read to its end. `log` only records what the server had when the last page came. -/
inductive LostCall where
  | searching (localTip cursor : Nat)
  | restoring
  | reading (purpose : Purpose) (cursor since : Nat) (ids : List EventId)
  | read (purpose : Purpose) (ids : List EventId) (log : List ServerEvent)

/-- A replica, how far it has read its server's log, that log, and the calls in progress. -/
structure Paired (Payload : Type) where
  replica : Replica (Sourced Payload)
  cursor : Nat
  serverLog : List ServerEvent
  calls : Nat → Option LostCall

def Paired.setCall (device : Paired Payload) (n : Nat) (call : Option LostCall) : Paired Payload :=
  { device with calls := Function.update device.calls n call }

def localTip (replica : Replica Payload) : Nat := (replica.log.map LogEvent.seq).foldr max 0

inductive PairedStep : Paired Payload → Paired Payload → Prop where
  /-- A local command; identifiers are fresh. -/
  | commit {device : Paired Payload} (events : List (EventId × Sourced Payload)) (hDistinct : (events.map Prod.fst).Nodup)
      (hFresh : ∀ id ∈ events.map Prod.fst, id ∉ device.replica.log.map LogEvent.id ∧ queued device.replica id = false) :
      PairedStep device { device with replica := appendBatch device.replica events }
  /-- A catch-up logs an event of the server. -/
  | incoming {device : Paired Payload} (row : ServerEvent) (body : Sourced Payload) (hServer : row ∈ device.serverLog)
      (hUnseen : row.id ∉ device.replica.log.map LogEvent.id) :
      PairedStep device { device with
        replica := appendTx device.replica row.id body
        cursor := max device.cursor row.seq }
  /-- A catch-up meets an event that is logged, or starts at a snapshot. -/
  | advance {device : Paired Payload} (cursor : Nat) : PairedStep device { device with cursor := cursor }
  /-- The server takes an event, from this device or another. -/
  | served {device : Paired Payload} (row : ServerEvent) (hNext : ∀ other ∈ device.serverLog, other.seq < row.seq)
      (hSeq : 0 < row.seq) : PairedStep device { device with serverLog := device.serverLog ++ [row] }
  | flushed {device : Paired Payload} (entry : Nat) :
      PairedStep device { device with replica := markFlushed device.replica entry }
  | rejected {device : Paired Payload} (entry : Nat) :
      PairedStep device { device with replica := markRejected device.replica entry }
  | requeue {device : Paired Payload} : PairedStep device { device with replica := requeueRejected device.replica }
  | search {device : Paired Payload} (n : Nat) (hIdle : device.calls n = none) (hUnchecked : device.replica.logChecked = false) :
      PairedStep device (device.setCall n (some (.searching (localTip device.replica) device.cursor)))
  /-- The server is only asked when there is something to ask about. -/
  | noCandidates {device : Paired Payload} (n tip cursor : Nat) (hCall : device.calls n = some (.searching tip cursor))
      (hNone : lostCandidates device.replica tip = []) :
      PairedStep device (device.setCall n (some (.read (.findLost tip) [] [])))
  | candidates {device : Paired Payload} (n tip cursor : Nat) (hCall : device.calls n = some (.searching tip cursor))
      (hSome : lostCandidates device.replica tip ≠ []) :
      PairedStep device (device.setCall n (some (.reading (.findLost tip) cursor 0 [])))
  | restore {device : Paired Payload} (n : Nat) (hIdle : device.calls n = none)
      (hHeld : unconfirmedEvents device.replica ≠ []) : PairedStep device (device.setCall n (some .restoring))
  | restoreCursor {device : Paired Payload} (n : Nat) (hCall : device.calls n = some .restoring) :
      PairedStep device (device.setCall n (some (.reading .restoreLost device.cursor 0 [])))
  | page {device : Paired Payload} (n : Nat) (purpose : Purpose) (cursor since limit : Nat) (ids : List EventId)
      (last : ServerEvent) (hCall : device.calls n = some (.reading purpose cursor since ids))
      (hLast : (fetchEvents device.serverLog since limit).getLast? = some last) :
      PairedStep device (device.setCall n (some (.reading purpose cursor last.seq
        (ids ++ (fetchEvents device.serverLog since limit).map ServerEvent.id))))
  /-- An empty log cannot be the one a cursor came from. -/
  | lastPage {device : Paired Payload} (n : Nat) (purpose : Purpose) (cursor since limit : Nat) (ids : List EventId)
      (hCall : device.calls n = some (.reading purpose cursor since ids)) (hLimit : 0 < limit)
      (hEnd : fetchEvents device.serverLog since limit = []) :
      PairedStep device (device.setCall n
        (if 0 < cursor ∧ ids = [] then none else some (.read purpose ids device.serverLog)))
  | found {device : Paired Payload} (n tip : Nat) (ids : List EventId) (log : List ServerEvent)
      (hCall : device.calls n = some (.read (.findLost tip) ids log)) :
      PairedStep device ({ device with replica := findLost fromHere device.replica tip ids }.setCall n none)
  | restored {device : Paired Payload} (n : Nat) (ids : List EventId) (log : List ServerEvent)
      (hCall : device.calls n = some (.read .restoreLost ids log)) :
      PairedStep device ({ device with replica := restoreLost device.replica ids }.setCall n none)
  /-- A call fails, or its process stops. -/
  | stop {device : Paired Payload} (n : Nat) : PairedStep device (device.setCall n none)

section

variable {replica : Replica Payload}

def queuedIds (replica : Replica Payload) : List EventId := replica.outbox.map fun entry => entry.event.id

theorem queued_iff_mem {id : EventId} : queued replica id = true ↔ id ∈ queuedIds replica := by
  rw [queued_iff, queuedIds, mem_map]

theorem foldl_enqueueNext (events : List (LogEvent Payload)) :
    ∃ added : List (OutboxEntry Payload), added.map OutboxEntry.event = events ∧
      ∃ nextId, events.foldl enqueueNext replica = { replica with outbox := replica.outbox ++ added, nextId := nextId } := by
  induction events generalizing replica with
  | nil => exact ⟨[], rfl, replica.nextId, by rw [append_nil]; rfl⟩
  | cons event rest ih =>
    obtain ⟨added, hAdded, nextId, hFold⟩ := @ih (enqueueNext replica event)
    obtain ⟨entry, hEvent, hEntry⟩ : ∃ entry : OutboxEntry Payload, entry.event = event ∧
        (enqueueNext replica event).outbox = replica.outbox ++ [entry] := ⟨_, rfl, rfl⟩
    refine ⟨entry :: added, by rw [map_cons, hEvent, hAdded], nextId, ?_⟩
    · rw [foldl_cons, hFold]
      rw [hEntry, append_assoc, singleton_append]
      rfl

theorem appendBatch_adds (events : List (EventId × Payload)) :
    queuedIds (appendBatch replica events) = queuedIds replica ++ events.map Prod.fst ∧
      (appendBatch replica events).log.map LogEvent.id = replica.log.map LogEvent.id ++ events.map Prod.fst ∧
      (appendBatch replica events).unconfirmed = replica.unconfirmed := by
  induction events generalizing replica with
  | nil => simp only [appendBatch, foldl_nil, map_nil, append_nil, and_self]
  | cons event rest ih =>
    obtain ⟨hQueued, hLog, hHeld⟩ := @ih (appendLocal replica event)
    change queuedIds (appendBatch (appendLocal replica event) rest) = _ ∧
      (appendBatch (appendLocal replica event) rest).log.map LogEvent.id = _ ∧
      (appendBatch (appendLocal replica event) rest).unconfirmed = _
    rw [hQueued, hLog, hHeld]
    simp only [appendLocal, enqueueNext, appendTx, queuedIds, map_append, map_cons, map_nil,
      append_assoc, singleton_append, and_self]

end

structure Numbered (replica : Replica Payload) : Prop where
  inOrder : InOrder replica.log
  latest : ∀ event ∈ replica.log, event.seq ≤ replica.latestSeq

theorem Numbered.appendTx {replica : Replica Payload} (h : Numbered replica) {id : EventId} {payload : Payload}
    (hFresh : id ∉ replica.log.map LogEvent.id) : Numbered (appendTx replica id payload) := by
  refine ⟨⟨pairwise_snoc h.inOrder.seqs fun event hMem => Nat.lt_succ_of_le (h.latest event hMem), ?_⟩, fun event hMem => ?_⟩
  · rw [Outbox.appendTx, map_append]
    refine nodup_append.mpr ⟨h.inOrder.ids, nodup_singleton _, fun old hOld new hNew => ?_⟩
    rw [mem_singleton.mp hNew]
    rintro rfl
    exact hFresh hOld
  · rcases mem_append.mp hMem with hOld | hNew
    · exact Nat.le_succ_of_le (h.latest event hOld)
    · rw [mem_singleton.mp hNew]
      exact Nat.le_refl _

theorem Numbered.appendBatch {replica : Replica Payload} (h : Numbered replica) {events : List (EventId × Payload)}
    (hDistinct : (events.map Prod.fst).Nodup) (hFresh : ∀ id ∈ events.map Prod.fst, id ∉ replica.log.map LogEvent.id) :
    Numbered (appendBatch replica events) := by
  induction events generalizing replica with
  | nil => exact h
  | cons event rest ih =>
    obtain ⟨hHead, hRest⟩ := nodup_cons.mp hDistinct
    have hFirst : Numbered (Outbox.appendTx replica event.1 event.2) := h.appendTx (hFresh _ mem_cons_self)
    have hNext : Numbered (appendLocal replica event) := ⟨⟨hFirst.inOrder.seqs, hFirst.inOrder.ids⟩, hFirst.latest⟩
    refine ih hNext hRest fun id hMem hLogged => ?_
    have hLog : (appendLocal replica event).log.map LogEvent.id = replica.log.map LogEvent.id ++ [event.1] := by
      simp only [appendLocal, Outbox.enqueueNext, Outbox.appendTx, map_append, map_cons, map_nil]
    rw [hLog] at hLogged
    rcases mem_append.mp hLogged with hOld | hNew
    · exact hFresh id (mem_cons_of_mem _ hMem) hOld
    · rw [mem_singleton.mp hNew] at hMem
      exact hHead hMem

/-- What is on record is logged and not queued. -/
def HeldBack (replica : Replica Payload) : Prop :=
  ∀ id ∈ replica.unconfirmed, id ∈ replica.log.map LogEvent.id ∧ id ∉ queuedIds replica

/-- New entries are for events that had none, one for each. -/
def QueuesOnce (before after : Replica Payload) : Prop :=
  ∃ new, queuedIds after = queuedIds before ++ new ∧ new.Nodup ∧ ∀ id ∈ new, id ∉ queuedIds before

/-- What a step leaves of a replica, and what becomes of what is on record; `known` is
what the server has. -/
structure Evolves (known : EventId → Prop) (before after : Replica Payload) : Prop where
  numbered : Numbered after
  heldBack : HeldBack after
  queues : QueuesOnce before after
  kept : ∀ id ∈ before.unconfirmed, id ∈ queuedIds after ∨ known id ∨ id ∈ after.unconfirmed

section

variable {replica replica' : Replica Payload} {known : EventId → Prop}

theorem Evolves.same (h : Numbered replica) (hHeld : HeldBack replica) (hLog : replica'.log = replica.log)
    (hLatest : replica'.latestSeq = replica.latestSeq) (hRecord : replica'.unconfirmed = replica.unconfirmed)
    (hQueued : queuedIds replica' = queuedIds replica) : Evolves known replica replica' where
  numbered := ⟨hLog ▸ h.inOrder, by rw [hLog, hLatest]; exact h.latest⟩
  heldBack := by
    unfold HeldBack
    rw [hRecord, hLog, hQueued]
    exact hHeld
  queues := ⟨[], by rw [hQueued, append_nil], .nil, fun _ hMem => absurd hMem not_mem_nil⟩
  kept id hMem := .inr (.inr (hRecord ▸ hMem))

theorem Evolves.commit (h : Numbered replica) (hHeld : HeldBack replica) {events : List (EventId × Payload)}
    (hDistinct : (events.map Prod.fst).Nodup)
    (hFresh : ∀ id ∈ events.map Prod.fst, id ∉ replica.log.map LogEvent.id ∧ queued replica id = false) :
    Evolves known replica (appendBatch replica events) := by
  obtain ⟨hQueued, hLog, hRecord⟩ := @appendBatch_adds _ replica events
  refine ⟨h.appendBatch hDistinct fun id hMem => (hFresh id hMem).1, fun id hMem => ?_,
    ⟨_, hQueued, hDistinct, fun id hMem hOld => ?_⟩, fun id hMem => .inr (.inr (hRecord ▸ hMem))⟩
  · rw [hRecord] at hMem
    obtain ⟨hLogged, hNone⟩ := hHeld id hMem
    rw [hLog, hQueued]
    refine ⟨mem_append_left _ hLogged, fun hIn => ?_⟩
    exact (mem_append.mp hIn).elim hNone fun hNew => (hFresh id hNew).1 hLogged
  · rw [← queued_iff_mem, (hFresh id hMem).2] at hOld
    cases hOld

theorem Evolves.incoming (h : Numbered replica) (hHeld : HeldBack replica) {id : EventId} {payload : Payload}
    (hUnseen : id ∉ replica.log.map LogEvent.id) : Evolves known replica (appendTx replica id payload) where
  numbered := h.appendTx hUnseen
  heldBack other hMem := by
    obtain ⟨hLogged, hNone⟩ := hHeld other hMem
    refine ⟨?_, hNone⟩
    rw [Outbox.appendTx, map_append]
    exact mem_append_left _ hLogged
  queues := ⟨[], (append_nil _).symm, .nil, fun _ hMem => absurd hMem not_mem_nil⟩
  kept _ hMem := .inr (.inr hMem)

variable {ids : List EventId}

theorem Evolves.findLost (h : Numbered replica) (hHeld : HeldBack replica) {candidate : LogEvent Payload → Bool}
    {tip : Nat} : Evolves known replica (findLost candidate replica tip ids) where
  numbered := ⟨h.inOrder, h.latest⟩
  heldBack id hMem := by
    rcases mem_append.mp hMem with hOld | hNew
    · exact hHeld id hOld
    · obtain ⟨event, hLost, rfl⟩ := mem_map.mp hNew
      obtain ⟨hLogged, hIs⟩ := mem_filter.mp hLost
      simp only [Bool.and_eq_true, decide_eq_true_eq, Bool.not_eq_true'] at hIs
      refine ⟨mem_map_of_mem hLogged, fun hIn => ?_⟩
      have hQueued : queued replica event.id = true := queued_iff_mem.mpr hIn
      rw [hIs.1.2] at hQueued
      cases hQueued
  queues := ⟨[], (append_nil _).symm, .nil, fun _ hMem => absurd hMem not_mem_nil⟩
  kept _ hMem := .inr (.inr (mem_append_left _ hMem))

theorem mem_unconfirmedEvents {event : LogEvent Payload} :
    event ∈ unconfirmedEvents replica ↔ event ∈ replica.log ∧ event.id ∈ replica.unconfirmed := by
  simp only [unconfirmedEvents, mem_filter, decide_eq_true_eq]

theorem restoreLost_queues (hHeld : HeldBack replica) (ids : List EventId) :
    ∃ added : List (OutboxEntry Payload), (restoreLost replica ids).outbox = replica.outbox ++ added ∧
      added.map OutboxEntry.event = (unconfirmedEvents replica).filter (fun event => event.id ∉ ids) ∧
      (restoreLost replica ids).log = replica.log ∧ (restoreLost replica ids).latestSeq = replica.latestSeq ∧
      ∀ entry ∈ added, queued replica entry.event.id = false ∧ entry.event.id ∉ ids := by
  obtain ⟨added, hAdded, nextId, hFold⟩ := @foldl_enqueueNext _ replica
    ((unconfirmedEvents replica).filter fun event => event.id ∉ ids)
  refine ⟨added, by rw [restoreLost, hFold], hAdded, by rw [restoreLost, hFold], by rw [restoreLost, hFold],
    fun entry hMem => ?_⟩
  have hEvent : entry.event ∈ added.map OutboxEntry.event := mem_map_of_mem hMem
  rw [hAdded] at hEvent
  obtain ⟨hHere, hNot⟩ := mem_filter.mp hEvent
  refine ⟨?_, of_decide_eq_true hNot⟩
  rw [Bool.eq_false_iff, ne_eq, queued_iff_mem]
  exact (hHeld _ (mem_unconfirmedEvents.mp hHere).2).2

theorem Evolves.restoreLost (h : Numbered replica) (hHeld : HeldBack replica)
    (hKnown : ∀ id ∈ ids, known id) : Evolves known replica (restoreLost replica ids) := by
  obtain ⟨added, hOutbox, hAdded, hLog, hLatest, hFree⟩ := restoreLost_queues hHeld ids
  have hQueued : queuedIds (Outbox.restoreLost replica ids) = queuedIds replica ++
      ((unconfirmedEvents replica).filter fun event => event.id ∉ ids).map LogEvent.id := by
    rw [queuedIds, hOutbox, map_append, ← hAdded, map_map]
    rfl
  refine ⟨⟨hLog ▸ h.inOrder, by rw [hLog, hLatest]; exact h.latest⟩, fun _ hMem => absurd hMem not_mem_nil,
    ⟨_, hQueued, ?_, fun id hMem hOld => ?_⟩, fun id hMem => ?_⟩
  · exact h.inOrder.ids.sublist ((filter_sublist.trans filter_sublist).map _)
  · obtain ⟨event, hEvent, rfl⟩ := mem_map.mp hMem
    exact (hHeld _ (mem_unconfirmedEvents.mp (mem_filter.mp hEvent).1).2).2 hOld
  · by_cases hServer : id ∈ ids
    · exact .inr (.inl (hKnown id hServer))
    · obtain ⟨event, hLogged, rfl⟩ := mem_map.mp (hHeld id hMem).1
      refine .inl (hQueued ▸ mem_append_right _ (mem_map_of_mem (mem_filter.mpr ⟨?_, decide_eq_true hServer⟩)))
      exact mem_unconfirmedEvents.mpr ⟨hLogged, hMem⟩

end

def Known (log : List ServerEvent) (id : EventId) : Prop := ∃ row ∈ log, row.id = id

/-- A call that reads the log of the server has every row up to where it got, and
nothing else. -/
def LostCall.Knows (log : List ServerEvent) : LostCall → Prop
  | .searching .. => True
  | .restoring => True
  | .reading _ _ since ids => (since = 0 ∨ ∃ row ∈ log, row.seq = since) ∧
      (∀ row ∈ log, row.seq ≤ since → row.id ∈ ids) ∧ ∀ id ∈ ids, Known log id
  | .read _ ids seen => (∀ row ∈ seen, row.id ∈ ids) ∧ ∀ id ∈ ids, Known log id

structure ServerOrder (log : List ServerEvent) : Prop where
  seqs : log.Pairwise fun a b => a.seq < b.seq
  positive : ∀ row ∈ log, 0 < row.seq

section

variable {log : List ServerEvent} {since limit : Nat}

variable {row : ServerEvent}

theorem mem_fetchEvents (h : row ∈ fetchEvents log since limit) : row ∈ log :=
  (mem_filter.mp (mem_of_mem_take h)).1

theorem ServerOrder.mem_page (h : ServerOrder log) {last : ServerEvent}
    (hLast : (fetchEvents log since limit).getLast? = some last) (hRow : row ∈ log) (hLe : row.seq ≤ last.seq) :
    row.seq ≤ since ∨ row ∈ fetchEvents log since limit := by
  by_contra hNone
  obtain ⟨hAfter, hOut⟩ := not_or.mp hNone
  have hListed : row ∈ log.filter fun event => since < event.seq :=
    mem_filter.mpr ⟨hRow, decide_eq_true (Nat.lt_of_not_le hAfter)⟩
  have hSorted := h.seqs.filter fun event => since < event.seq
  rw [← take_append_drop (min limit 1000) (log.filter fun event => since < event.seq)] at hListed hSorted
  -- A row the page leaves out comes after its last one.
  have hDropped := (mem_append.mp hListed).resolve_left hOut
  have hLt := (pairwise_append.mp hSorted).2.2 last (mem_of_getLast? hLast) row hDropped
  omega

theorem le_of_fetchEvents_nil (hLimit : 0 < limit) (hEnd : fetchEvents log since limit = [])
    (hRow : row ∈ log) : row.seq ≤ since := by
  by_contra hAfter
  have hListed : row ∈ log.filter fun event => since < event.seq :=
    mem_filter.mpr ⟨hRow, decide_eq_true (Nat.lt_of_not_le hAfter)⟩
  rcases take_eq_nil_iff.mp hEnd with hNone | hNil
  · omega
  · rw [hNil] at hListed
    cases hListed

theorem LostCall.Knows.served {call : LostCall} (h : call.Knows log)
    (hNext : ∀ other ∈ log, other.seq < row.seq) (hSeq : 0 < row.seq) : call.Knows (log ++ [row]) := by
  have hGrows : ∀ id, Known log id → Known (log ++ [row]) id :=
    fun id ⟨other, hOther, hId⟩ => ⟨other, mem_append_left _ hOther, hId⟩
  cases call with
  | searching | restoring => trivial
  | reading purpose cursor since ids =>
    obtain ⟨hSince, hHas, hOnly⟩ := h
    refine ⟨hSince.imp_right fun ⟨other, hOther, hIs⟩ => ⟨other, mem_append_left _ hOther, hIs⟩,
      fun other hMem hLe => ?_, fun id hMem => hGrows id (hOnly id hMem)⟩
    rcases mem_append.mp hMem with hOld | hNew
    · exact hHas other hOld hLe
    · obtain rfl := mem_singleton.mp hNew
      rcases hSince with rfl | ⟨tip, hTip, rfl⟩
      · omega
      · have hLt := hNext tip hTip
        omega
  | read purpose ids seen => exact ⟨h.1, fun id hMem => hGrows id (h.2 id hMem)⟩

end

/-- What holds in every state: the logs are in order, what is on record is logged and not
queued, and each call knows what it has read. -/
structure Steady (device : Paired Payload) : Prop where
  numbered : Numbered device.replica
  heldBack : HeldBack device.replica
  server : ServerOrder device.serverLog
  calls : ∀ n call, device.calls n = some call → call.Knows device.serverLog

section

variable {device device' : Paired Payload}

theorem Steady.setCall (h : Steady device) {n : Nat} {call : Option LostCall}
    (hKnows : ∀ next, call = some next → next.Knows device.serverLog) : Steady (device.setCall n call) := by
  refine ⟨h.numbered, h.heldBack, h.server, fun m next hNext => ?_⟩
  simp only [Paired.setCall] at hNext
  by_cases hSame : m = n
  · rw [hSame, Function.update_self] at hNext
    exact hKnows next hNext
  · rw [Function.update_of_ne hSame] at hNext
    exact h.calls m next hNext

theorem Steady.evolves (h : Steady device) {known : EventId → Prop} {replica : Replica (Sourced Payload)} {cursor : Nat}
    (hEvolves : Evolves known device.replica replica) : Steady { device with replica := replica, cursor := cursor } :=
  ⟨hEvolves.numbered, hEvolves.heldBack, h.server, h.calls⟩

theorem Steady.step (h : Steady device) (hStep : PairedStep device device') :
    Steady device' ∧ Evolves (Known device.serverLog) device.replica device'.replica ∧
      ∀ row ∈ device.serverLog, row ∈ device'.serverLog := by
  have hStays : Evolves (Known device.serverLog) device.replica device.replica :=
    .same h.numbered h.heldBack rfl rfl rfl rfl
  have hServer : ∀ row ∈ device.serverLog, row ∈ device.serverLog := fun _ hMem => hMem
  cases hStep with
  | commit events hDistinct hFresh =>
    have hCommit : Evolves (Known device.serverLog) device.replica (appendBatch device.replica events) :=
      .commit h.numbered h.heldBack hDistinct hFresh
    exact ⟨h.evolves hCommit, hCommit, hServer⟩
  | incoming row body hRow hUnseen =>
    have hIncoming : Evolves (Known device.serverLog) device.replica (appendTx device.replica row.id body) :=
      .incoming h.numbered h.heldBack hUnseen
    exact ⟨h.evolves hIncoming, hIncoming, hServer⟩
  | advance cursor => exact ⟨h.evolves hStays, hStays, hServer⟩
  | served row hNext hSeq =>
    refine ⟨⟨h.numbered, h.heldBack, ⟨pairwise_snoc h.server.seqs hNext, fun other hMem => ?_⟩, fun n call hCall => ?_⟩, hStays,
      fun other hMem => mem_append_left _ hMem⟩
    · rcases mem_append.mp hMem with hOld | hNew
      · exact h.server.positive other hOld
      · exact mem_singleton.mp hNew ▸ hSeq
    · exact (h.calls n call hCall).served hNext hSeq
  | flushed entry =>
    have hMarked : Evolves (Known device.serverLog) device.replica (markFlushed device.replica entry) := by
      refine .same h.numbered h.heldBack rfl rfl rfl ?_
      rw [queuedIds, markFlushed, map_map]
      refine map_congr_left fun row _ => ?_
      simp only [Function.comp_apply]
      split <;> rfl
    exact ⟨h.evolves hMarked, hMarked, hServer⟩
  | rejected entry =>
    have hMarked : Evolves (Known device.serverLog) device.replica (markRejected device.replica entry) :=
      .same h.numbered h.heldBack rfl rfl rfl rfl
    exact ⟨h.evolves hMarked, hMarked, hServer⟩
  | requeue =>
    have hMarked : Evolves (Known device.serverLog) device.replica (requeueRejected device.replica) :=
      .same h.numbered h.heldBack rfl rfl rfl rfl
    exact ⟨h.evolves hMarked, hMarked, hServer⟩
  | search | restore => exact ⟨h.setCall fun next hNext => by cases hNext; trivial, hStays, hServer⟩
  | noCandidates n tip cursor hCall hNone =>
    refine ⟨h.setCall fun next hNext => ?_, hStays, hServer⟩
    cases hNext
    exact ⟨fun _ hMem => absurd hMem not_mem_nil, fun _ hMem => absurd hMem not_mem_nil⟩
  | candidates | restoreCursor =>
    refine ⟨h.setCall fun next hNext => ?_, hStays, hServer⟩
    cases hNext
    exact ⟨.inl rfl, fun row hMem hLe => absurd (h.server.positive row hMem) (Nat.not_lt.mpr hLe),
      fun _ hMem => absurd hMem not_mem_nil⟩
  | page n purpose cursor since limit ids last hCall hLast =>
    refine ⟨h.setCall fun next hNext => ?_, hStays, hServer⟩
    cases hNext
    obtain ⟨_, hHas, hOnly⟩ := h.calls n _ hCall
    refine ⟨.inr ⟨last, mem_fetchEvents (mem_of_getLast? hLast), rfl⟩, fun row hMem hLe => ?_, fun id hMem => ?_⟩
    · rcases h.server.mem_page hLast hMem hLe with hBefore | hPage
      · exact mem_append_left _ (hHas row hMem hBefore)
      · exact mem_append_right _ (mem_map_of_mem hPage)
    · rcases mem_append.mp hMem with hOld | hNew
      · exact hOnly id hOld
      · obtain ⟨row, hRow, rfl⟩ := mem_map.mp hNew
        exact ⟨row, mem_fetchEvents hRow, rfl⟩
  | lastPage n purpose cursor since limit ids hCall hLimit hEnd =>
    refine ⟨h.setCall fun next hNext => ?_, hStays, hServer⟩
    split at hNext
    · cases hNext
    · cases hNext
      obtain ⟨_, hHas, hOnly⟩ := h.calls n _ hCall
      exact ⟨fun row hMem => hHas row hMem (le_of_fetchEvents_nil hLimit hEnd hMem), hOnly⟩
  | found n tip ids log hCall =>
    have hFound : Evolves (Known device.serverLog) device.replica (findLost fromHere device.replica tip ids) :=
      .findLost h.numbered h.heldBack
    exact ⟨(h.evolves hFound).setCall (fun next hNext => by cases hNext), hFound, hServer⟩
  | restored n ids log hCall =>
    have hRestored : Evolves (Known device.serverLog) device.replica (restoreLost device.replica ids) :=
      .restoreLost h.numbered h.heldBack (h.calls n _ hCall).2
    exact ⟨(h.evolves hRestored).setCall (fun next hNext => by cases hNext), hRestored, hServer⟩
  | stop n => exact ⟨h.setCall (fun next hNext => by cases hNext), hStays, hServer⟩

theorem steady_run : Preserves (@PairedStep Payload) Steady := fun _ _ hStep h => (h.step hStep).1

theorem steady_kept (h : Steady device) (steps : Trace PairedStep device device') {id : EventId}
    (hId : id ∈ device.replica.unconfirmed) :
    id ∈ queuedIds device'.replica ∨ Known device'.serverLog id ∨ id ∈ device'.replica.unconfirmed := by
  induction steps with
  | refl => exact .inr (.inr hId)
  | @tail middle last prior hStep ih =>
    obtain ⟨_, hEvolves, hServer⟩ := (steady_run.trace prior h).step hStep
    obtain ⟨new, hNew, _⟩ := hEvolves.queues
    have hKnown : Known middle.serverLog id → Known last.serverLog id := fun ⟨row, hRow, hIs⟩ => ⟨row, hServer row hRow, hIs⟩
    rcases ih with hQueued | hHas | hHeld
    · exact .inl (hNew ▸ mem_append_left _ hQueued)
    · exact .inr (.inl (hKnown hHas))
    · exact (hEvolves.kept id hHeld).imp_right (Or.imp_left hKnown)

/-- An event gets no entry beside the one it has. -/
theorem steady_once (h : Steady device) (steps : Trace PairedStep device device') (id : EventId) :
    (queuedIds device'.replica).count id ≤ max 1 ((queuedIds device.replica).count id) := by
  induction steps with
  | refl => exact Nat.le_max_right _ _
  | @tail middle last prior hStep ih =>
    obtain ⟨_, hEvolves, _⟩ := (steady_run.trace prior h).step hStep
    obtain ⟨new, hNew, hNodup, hFree⟩ := hEvolves.queues
    rw [hNew, count_append]
    by_cases hMem : id ∈ new
    · have hNone : (queuedIds middle.replica).count id = 0 := count_eq_zero.mpr (hFree id hMem)
      have hOne : new.count id ≤ 1 := nodup_iff_count_le_one.mp hNodup id
      omega
    · rw [count_eq_zero.mpr hMem]
      omega

end

structure Unsearched (device : Paired Payload) : Prop where
  numbered : Numbered device.replica
  noRecord : device.replica.unconfirmed = []
  server : ServerOrder device.serverLog
  idle : ∀ n, device.calls n = none

/-- What the recovery promises in a state of a run. -/
structure Recovers (targetTask : Sourced Payload → Option TaskId) (start device : Paired Payload) : Prop where
  /-- Restoring queues only what has no entry and what the server's log, as the call read
  it, does not contain. -/
  restored : ∀ n ids log, device.calls n = some (.read .restoreLost ids log) → (∀ row ∈ log, row.id ∈ ids) ∧
    ∃ added, (restoreLost device.replica ids).outbox = device.replica.outbox ++ added ∧
      ∀ entry ∈ added, queued device.replica entry.event.id = false ∧ entry.event.id ∉ ids
  /-- What is on record is later queued, known to the server or still on record. -/
  recorded : ∀ later, Trace PairedStep device later → ∀ id ∈ device.replica.unconfirmed,
    queued later.replica id = true ∨ Known later.serverLog id ∨ id ∈ later.replica.unconfirmed
  /-- No event gets a second entry. -/
  once : ∀ id, (queuedIds device.replica).count id ≤ max 1 ((queuedIds start.replica).count id)
  /-- What comes after an event on record, in its task, is not sendable; the queue may be
  read later than what is held. -/
  behind : ∀ later limit, ∀ entry ∈ sendable targetTask (heldTasks targetTask device.replica) later limit,
    ∀ event ∈ device.replica.log, event.id ∈ device.replica.unconfirmed → SameTask targetTask event entry.event →
      ¬event.seq < entry.event.seq

theorem Unsearched.steady {device : Paired Payload} (h : Unsearched device) : Steady device where
  numbered := h.numbered
  heldBack id hMem := by
    rw [h.noRecord] at hMem
    cases hMem
  server := h.server
  calls n call hCall := by
    rw [h.idle n] at hCall
    cases hCall

theorem not_later_of_sendable {targetTask : Payload → Option TaskId} {replica later : Replica Payload} {limit : Nat}
    {entry : OutboxEntry Payload} {event : LogEvent Payload} (hOrder : InOrder replica.log)
    (hEntry : entry ∈ sendable targetTask (heldTasks targetTask replica) later limit) (hEvent : event ∈ replica.log)
    (hRecord : event.id ∈ replica.unconfirmed) (hTask : SameTask targetTask event entry.event) :
    ¬event.seq < entry.event.seq := by
  intro hLater
  obtain ⟨task, hOf, hEntryOf⟩ := hTask
  obtain ⟨first, hFirst, hLe⟩ := lookup_held (mem_unconfirmedEvents.mpr ⟨hEvent, hRecord⟩) (hOrder.seqs.filter _) hOf
  rw [sendable_eq] at hEntry
  have hFree := (mem_filter.mp (mem_of_mem_take hEntry)).2
  have hLookup : (heldTasks targetTask replica).lookup task = some first := hFirst
  have hLt : first < entry.event.seq := Nat.lt_of_le_of_lt hLe hLater
  simp only [waitsForHeld, hEntryOf, Option.bind_some, hLookup, Option.any_some, hLt, decide_true, Bool.not_true,
    Bool.false_eq_true] at hFree

/-- Whatever the processes of a device and the server do, what an older binary lost is
recovered once, or kept. -/
theorem lost_events_recovered (targetTask : Sourced Payload → Option TaskId) {start device : Paired Payload}
    (hStart : Unsearched start) (steps : Trace PairedStep start device) : Recovers targetTask start device := by
  have h : Steady device := steady_run.trace steps hStart.steady
  refine ⟨fun n ids log hCall => ⟨(h.calls n _ hCall).1, ?_⟩, fun later hLater id hMem => ?_, steady_once hStart.steady steps,
    fun later limit entry hEntry event hEvent hRecord hTask =>
      not_later_of_sendable h.numbered.inOrder hEntry hEvent hRecord hTask⟩
  · obtain ⟨added, hOutbox, _, _, _, hFree⟩ := restoreLost_queues h.heldBack ids
    exact ⟨added, hOutbox, hFree⟩
  · rw [queued_iff_mem]
    exact steady_kept h hLater hMem

private def itsTask (_ : Sourced Nat) : Option TaskId := some ⟨1⟩

/-- An event that an older binary logged and never queued. -/
private def forgotten : LogEvent (Sourced Nat) := ⟨⟨1⟩, 1, ⟨none, .anyUser, "task_created", 0⟩⟩

private def legacy : Paired Nat := ⟨left [forgotten], 0, [⟨1, ⟨9⟩⟩], fun _ => none⟩

private theorem legacy_unsearched : Unsearched legacy where
  numbered := ⟨⟨pairwise_singleton _ _, nodup_singleton _⟩, by decide⟩
  noRecord := rfl
  server := ⟨pairwise_singleton _ _, by decide⟩
  idle _ := rfl

private theorem legacy_recorded : ∃ device, Trace PairedStep legacy device ∧
    device.calls 1 = some (.read .restoreLost [⟨9⟩] [⟨1, ⟨9⟩⟩]) ∧ device.replica.unconfirmed = [⟨1⟩] := by
  refine ⟨_, ((((((((Relation.ReflTransGen.single (.search 0 rfl rfl)).tail (.candidates 0 1 0 rfl ?_)).tail
    (.page 0 _ 0 0 100 [] ⟨1, ⟨9⟩⟩ rfl rfl)).tail (.lastPage 0 _ 0 1 100 [⟨9⟩] rfl ?_ rfl)).tail
    (.found 0 1 [⟨9⟩] _ rfl)).tail (.restore 1 rfl ?_)).tail (.restoreCursor 1 rfl)).tail
    (.page 1 _ 0 0 100 [] ⟨1, ⟨9⟩⟩ rfl rfl)).tail (.lastPage 1 _ 0 1 100 [⟨9⟩] rfl ?_ rfl), rfl, rfl⟩
  all_goals decide

theorem lost_events_recovered_legacy : ∃ device, Trace PairedStep legacy device ∧
    device.calls 1 = some (.read .restoreLost [⟨9⟩] [⟨1, ⟨9⟩⟩]) ∧ device.replica.unconfirmed = [⟨1⟩] ∧
      Recovers itsTask legacy device := by
  obtain ⟨device, hTrace, hCall, hRecord⟩ := legacy_recorded
  exact ⟨device, hTrace, hCall, hRecord, lost_events_recovered itsTask legacy_unsearched hTrace⟩

end Outbox
end Daruma
