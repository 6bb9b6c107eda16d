import Daruma.Desktop.Outbox

/-! The queue keeps the order of the log. What a flush is about to push has nothing
in front of it that the server has not answered. -/
namespace Daruma

open List

namespace Outbox

open Transition (Trace Preserves)

variable {Payload : Type} {targetTask : Payload → Option TaskId} {candidate : LogEvent Payload → Bool}
  {replica replica' : Replica Payload}

variable {n : Nat} {id : EventId} {entry : OutboxEntry Payload}

theorem le_foldr_max {ns : List Nat} (h : n ∈ ns) : n ≤ ns.foldr max 0 := by
  induction ns with
  | nil => cases h
  | cons m rest ih =>
    rcases mem_cons.mp h with rfl | hRest
    · exact Nat.le_max_left _ _
    · exact (ih hRest).trans (Nat.le_max_right _ _)

theorem pairwise_snoc {α : Type} {r : α → α → Prop} {rows : List α} {row : α} (h : rows.Pairwise r)
    (hLast : ∀ other ∈ rows, r other row) : (rows ++ [row]).Pairwise r := by
  refine pairwise_append.mpr ⟨h, pairwise_singleton _ _, fun other hOther last hMem => ?_⟩
  rw [mem_singleton.mp hMem]
  exact hLast other hOther

/-- Rows are numbered in the order in which they were written, each event has at most
one row in the log and in the queue, and what is queued is logged. -/
structure Rows (replica : Replica Payload) : Prop where
  seqs : replica.log.Pairwise fun a b => a.seq < b.seq
  latest : ∀ event ∈ replica.log, event.seq ≤ replica.latestSeq
  logged : (replica.log.map LogEvent.id).Nodup
  inLog : ∀ entry ∈ replica.outbox, entry.event ∈ replica.log
  origins : replica.outbox.Pairwise fun a b => a.originSeq < b.originSeq
  ids : replica.outbox.Pairwise fun a b => a.id < b.id
  nextId : ∀ entry ∈ replica.outbox, entry.id < replica.nextId
  once : (replica.outbox.map fun entry => entry.event.id).Nodup
  committed : replica.committed.Sublist (replica.outbox.map fun entry => entry.event.id)

theorem queued_iff : queued replica id = true ↔ ∃ entry ∈ replica.outbox, entry.event.id = id := by
  simp only [queued, any_eq_true, decide_eq_true_eq]

theorem Rows.eq_of_id (h : Rows replica) {a b : LogEvent Payload} (hA : a ∈ replica.log) (hB : b ∈ replica.log)
    (hId : a.id = b.id) : a = b :=
  inj_on_of_nodup_map h.logged hA hB hId

theorem Rows.entry_eq_of_id (h : Rows replica) {a b : OutboxEntry Payload} (hA : a ∈ replica.outbox)
    (hB : b ∈ replica.outbox) (hId : a.id = b.id) : a = b := by
  have hNodup : (replica.outbox.map OutboxEntry.id).Nodup :=
    pairwise_map.mpr (h.ids.imp fun hLt => hLt.ne)
  exact inj_on_of_nodup_map hNodup hA hB hId

variable {payload : Payload} {event : LogEvent Payload} {serverIds : List EventId} {events : List (LogEvent Payload)}
  {held : List (TaskId × Nat)} {limit : Nat}

theorem Rows.appendTx (h : Rows replica) {id : EventId}
    (hFresh : id ∉ replica.log.map LogEvent.id) : Rows (appendTx replica id payload) where
  seqs := pairwise_snoc h.seqs fun event hMem => Nat.lt_succ_of_le (h.latest event hMem)
  latest event hMem := by
    rcases mem_append.mp hMem with hOld | hNew
    · exact Nat.le_succ_of_le (h.latest event hOld)
    · rw [mem_singleton.mp hNew]
      exact Nat.le_refl _
  logged := by
    rw [Outbox.appendTx, map_append]
    refine nodup_append.mpr ⟨h.logged, nodup_singleton _, fun old hOld new hNew => ?_⟩
    rw [mem_singleton.mp hNew]
    rintro rfl
    exact hFresh hOld
  inLog entry hMem := mem_append_left _ (h.inLog entry hMem)
  origins := h.origins
  ids := h.ids
  nextId := h.nextId
  once := h.once
  committed := h.committed

theorem Rows.enqueueNext (h : Rows replica) (hLogged : event ∈ replica.log)
    (hQueued : queued replica event.id = false) : Rows (enqueueNext replica event) where
  seqs := h.seqs
  latest := h.latest
  logged := h.logged
  inLog entry hMem := by
    rcases mem_append.mp hMem with hOld | hNew
    · exact h.inLog entry hOld
    · rw [mem_singleton.mp hNew]
      exact hLogged
  origins := pairwise_snoc h.origins fun entry hMem => Nat.lt_succ_of_le (le_foldr_max (mem_map_of_mem hMem))
  ids := pairwise_snoc h.ids h.nextId
  nextId entry hMem := by
    rcases mem_append.mp hMem with hOld | hNew
    · exact Nat.lt_succ_of_lt (h.nextId entry hOld)
    · rw [mem_singleton.mp hNew]
      exact Nat.lt_succ_self _
  once := by
    rw [Outbox.enqueueNext, map_append]
    refine nodup_append.mpr ⟨h.once, nodup_singleton _, fun old hOld new hNew => ?_⟩
    rw [mem_singleton.mp hNew]
    intro hSame
    obtain ⟨entry, hMem, hId⟩ := mem_map.mp hOld
    rw [queued_iff.mpr ⟨entry, hMem, hId.trans hSame⟩] at hQueued
    cases hQueued
  committed := by
    rw [Outbox.enqueueNext, map_append]
    exact h.committed.trans (sublist_append_left _ _)

theorem Rows.appendLocal (h : Rows replica) {event : EventId × Payload}
    (hFresh : event.1 ∉ replica.log.map LogEvent.id) : Rows (appendLocal replica event) := by
  have hUnqueued : queued (Outbox.appendTx replica event.1 event.2) event.1 = false := by
    rw [Bool.eq_false_iff, ne_eq, queued_iff]
    rintro ⟨entry, hMem, hId⟩
    exact hFresh (mem_map.mpr ⟨entry.event, h.inLog entry hMem, hId⟩)
  have hLogged : Rows (Outbox.appendTx replica event.1 event.2) := h.appendTx hFresh
  have hRows : Rows (Outbox.enqueueNext (Outbox.appendTx replica event.1 event.2)
      ⟨event.1, replica.latestSeq + 1, event.2⟩) :=
    hLogged.enqueueNext (mem_append_right _ (mem_singleton_self _)) hUnqueued
  refine { hRows with committed := ?_ }
  simp only [Outbox.appendLocal, Outbox.enqueueNext, Outbox.appendTx, map_append]
  exact h.committed.append (List.Sublist.refl _)

def Answered (replica : Replica Payload) (id : EventId) : Prop := id ∈ replica.server ∨ id ∈ replica.refused

/-- An event of this device: it was queued, or an older binary can have lost it. -/
def Mine (candidate : LogEvent Payload → Bool) (replica : Replica Payload) (event : LogEvent Payload) : Prop :=
  queued replica event.id = true ∨ candidate event = true

def SameTask (targetTask : Payload → Option TaskId) (a b : LogEvent Payload) : Prop :=
  ∃ task, targetTask a.payload = some task ∧ targetTask b.payload = some task

def HasRow (replica : Replica Payload) (entry : OutboxEntry Payload) : Prop :=
  ∃ row ∈ replica.outbox, row.id = entry.id ∧ row.event = entry.event

def InTurn (targetTask : Payload → Option TaskId) (candidate : LogEvent Payload → Bool) (replica : Replica Payload)
    (entries : List (OutboxEntry Payload)) : Prop :=
  ∀ before entry after, entries = before ++ entry :: after → HasRow replica entry ∧
    ∀ earlier ∈ replica.log, Mine candidate replica earlier → SameTask targetTask earlier entry.event →
      earlier.seq < entry.event.seq →
        Answered replica earlier.id ∨ ∃ other ∈ before, other.event.id = earlier.id

def FlushSound (targetTask : Payload → Option TaskId) (candidate : LogEvent Payload → Bool)
    (replica : Replica Payload) : Flush Payload → Prop
  -- What is lost and not queued by now was seen on record.
  | .reading held => ∀ event ∈ replica.log, candidate event = true → queued replica event.id = false →
      event.id ∉ replica.server → ∀ task, targetTask event.payload = some task →
        ∃ first, held.lookup task = some first ∧ first ≤ event.seq
  | .pushing entries => InTurn targetTask candidate replica entries
  | .marking entry _ entries => (HasRow replica entry ∧ Answered replica entry.event.id) ∧
      InTurn targetTask candidate replica entries

/-- What holds of a replica in every state. -/
structure Sound (targetTask : Payload → Option TaskId) (candidate : LogEvent Payload → Bool)
    (replica : Replica Payload) : Prop where
  rows : Rows replica
  since : ∀ event ∈ replica.log, replica.base < event.seq → queued replica event.id = true ∨ event.id ∈ replica.server
  checked : replica.logChecked = true → ∀ event ∈ replica.log, candidate event = true →
    queued replica event.id = true ∨ event.id ∈ replica.unconfirmed ∨ event.id ∈ replica.server
  held : ∀ id ∈ replica.unconfirmed, queued replica id = false ∧ ∃ event ∈ replica.log, event.id = id ∧ candidate event = true
  dead : ∀ id ∈ replica.rejected, id < replica.nextId
  answered : ∀ entry ∈ replica.outbox, entry.flushed = true ∨ entry.id ∈ replica.rejected → Answered replica entry.event.id
  flushes : ∀ n flush, replica.flushes n = some flush → FlushSound targetTask candidate replica flush

/-- A step that a flush in progress does not notice. -/
structure Grows (candidate : LogEvent Payload → Bool) (before after : Replica Payload) : Prop where
  log : ∀ event ∈ after.log, event ∈ before.log ∨
    (before.latestSeq < event.seq ∧ (queued after event.id = true ∨ event.id ∈ after.server))
  mine : ∀ event ∈ before.log, Mine candidate after event → Mine candidate before event
  server : ∀ id ∈ before.server, id ∈ after.server
  refused : ∀ id ∈ before.refused, id ∈ after.refused
  outbox : ∀ entry ∈ before.outbox, HasRow after entry

theorem HasRow.grows (h : HasRow replica entry) (hGrows : Grows candidate replica replica') :
    HasRow replica' entry := by
  obtain ⟨row, hMem, hId, hEvent⟩ := h
  obtain ⟨row', hMem', hId', hEvent'⟩ := hGrows.outbox row hMem
  exact ⟨row', hMem', hId'.trans hId, hEvent'.trans hEvent⟩

theorem Answered.grows (h : Answered replica id) (hGrows : Grows candidate replica replica') : Answered replica' id :=
  h.imp (hGrows.server id) (hGrows.refused id)

theorem Grows.queued (h : Grows candidate replica replica') (hQueued : queued replica id = true) :
    queued replica' id = true := by
  obtain ⟨entry, hMem, hId⟩ := queued_iff.mp hQueued
  obtain ⟨row, hRow, _, hEvent⟩ := h.outbox entry hMem
  exact queued_iff.mpr ⟨row, hRow, hEvent ▸ hId⟩

theorem InTurn.grows {entries : List (OutboxEntry Payload)} (h : InTurn targetTask candidate replica entries)
    (hRows : Rows replica) (hGrows : Grows candidate replica replica') : InTurn targetTask candidate replica' entries := by
  intro before entry after hSplit
  obtain ⟨hRow, hEarlier⟩ := h before entry after hSplit
  refine ⟨hRow.grows hGrows, fun earlier hMem hMine hTask hSeq => ?_⟩
  rcases hGrows.log earlier hMem with hOld | ⟨hLater, _⟩
  · exact (hEarlier earlier hOld (hGrows.mine earlier hOld hMine) hTask hSeq).imp_left fun h => h.grows hGrows
  · obtain ⟨row, hIn, _, hEvent⟩ := hRow
    have hLatest := hRows.latest _ (hRows.inLog row hIn)
    rw [hEvent] at hLatest
    omega

theorem FlushSound.grows {flush : Flush Payload} (h : FlushSound targetTask candidate replica flush)
    (hRows : Rows replica) (hGrows : Grows candidate replica replica') :
    FlushSound targetTask candidate replica' flush := by
  cases flush with
  | reading held =>
    intro event hMem hCandidate hQueued hServer task hTask
    rcases hGrows.log event hMem with hOld | ⟨_, hNew⟩
    · have hBefore : queued replica event.id = false := by
        by_contra hIn
        rw [hGrows.queued (Bool.not_eq_false _ ▸ hIn)] at hQueued
        cases hQueued
      exact h event hOld hCandidate hBefore (fun hIn => hServer (hGrows.server _ hIn)) task hTask
    · rcases hNew with hIn | hIn
      · rw [hIn] at hQueued
        cases hQueued
      · exact absurd hIn hServer
  | pushing entries => exact InTurn.grows h hRows hGrows
  | marking entry outcome entries =>
    exact ⟨⟨h.1.1.grows hGrows, h.1.2.grows hGrows⟩, InTurn.grows h.2 hRows hGrows⟩

variable (h : Sound targetTask candidate replica)

include h in
theorem Sound.flushes_grows (hGrows : Grows candidate replica replica')
    (hSame : replica'.flushes = replica.flushes) (n : Nat) (flush : Flush Payload)
    (hFlush : replica'.flushes n = some flush) : FlushSound targetTask candidate replica' flush :=
  (h.flushes n flush (hSame ▸ hFlush)).grows h.rows hGrows

include h in
theorem Sound.setFlush {flush : Option (Flush Payload)}
    (hFlush : ∀ next, flush = some next → FlushSound targetTask candidate replica next) :
    Sound targetTask candidate (setFlush replica n flush) where
  rows := ⟨h.rows.1, h.rows.2, h.rows.3, h.rows.4, h.rows.5, h.rows.6, h.rows.7, h.rows.8, h.rows.9⟩
  since := h.since
  checked := h.checked
  held := h.held
  dead := h.dead
  answered := h.answered
  flushes n' next hNext := by
    have hUpdated : Function.update replica.flushes n flush n' = some next := hNext
    by_cases hSame : n' = n
    · rw [hSame, Function.update_self] at hUpdated
      exact hFlush next hUpdated
    · rw [Function.update_of_ne hSame] at hUpdated
      exact h.flushes n' next hUpdated

theorem hasRow_of_mem (h : entry ∈ replica.outbox) : HasRow replica entry :=
  ⟨entry, h, rfl, rfl⟩

theorem queued_append : queued { replica with outbox := replica.outbox ++ [entry] } id = true ↔
      queued replica id = true ∨ entry.event.id = id := by
  simp only [queued, any_append, any_cons, any_nil, Bool.or_false, Bool.or_eq_true, decide_eq_true_eq]

include h in
theorem Sound.incoming {id : EventId} (hServer : id ∈ replica.server) (hFresh : id ∉ replica.log.map LogEvent.id) :
    Sound targetTask candidate (appendTx replica id payload) := by
  have hLog : ∀ event ∈ (appendTx replica id payload).log, event ∈ replica.log ∨
      (event.id ∈ replica.server ∧ replica.latestSeq < event.seq) := by
    intro event hMem
    refine (mem_append.mp hMem).imp_right fun hNew => ?_
    rw [mem_singleton.mp hNew]
    exact ⟨hServer, Nat.lt_succ_self _⟩
  have hGrows : Grows candidate replica (appendTx replica id payload) :=
    ⟨fun event hMem => (hLog event hMem).imp_right fun hNew => ⟨hNew.2, .inr hNew.1⟩, fun _ _ hMine => hMine,
      fun _ hIn => hIn, fun _ hIn => hIn, fun _ hIn => hasRow_of_mem hIn⟩
  refine ⟨h.rows.appendTx hFresh, fun event hMem hSince => ?_, fun hChecked event hMem hCandidate => ?_,
    fun id' hHeld => ?_, h.dead, h.answered, h.flushes_grows hGrows rfl⟩
  · exact (hLog event hMem).elim (fun hOld => h.since event hOld hSince) fun hNew => .inr hNew.1
  · exact (hLog event hMem).elim (fun hOld => h.checked hChecked event hOld hCandidate) fun hNew => .inr (.inr hNew.1)
  · obtain ⟨hQueued, event, hMem, hEvent⟩ := h.held id' hHeld
    exact ⟨hQueued, event, mem_append_left _ hMem, hEvent⟩

include h in
theorem Sound.appendLocal {event : EventId × Payload}
    (hFresh : event.1 ∉ replica.log.map LogEvent.id) : Sound targetTask candidate (Outbox.appendLocal replica event) := by
  have hQueued : ∀ id, queued (Outbox.appendLocal replica event) id = true ↔ queued replica id = true ∨ event.1 = id :=
    fun id => queued_append
  have hLog : ∀ logged ∈ (Outbox.appendLocal replica event).log, logged ∈ replica.log ∨
      (replica.latestSeq < logged.seq ∧ queued (Outbox.appendLocal replica event) logged.id = true) := by
    intro logged hMem
    refine (mem_append.mp hMem).imp_right fun hNew => ?_
    rw [mem_singleton.mp hNew]
    exact ⟨Nat.lt_succ_self _, (hQueued _).mpr (.inr rfl)⟩
  have hOld : ∀ logged ∈ replica.log, event.1 ≠ logged.id := by
    rintro logged hMem hId
    exact hFresh (mem_map.mpr ⟨logged, hMem, hId.symm⟩)
  have hGrows : Grows candidate replica (Outbox.appendLocal replica event) :=
    ⟨fun logged hMem => (hLog logged hMem).imp_right fun hNew => ⟨hNew.1, .inl hNew.2⟩,
      fun logged hMem hMine => hMine.imp_left fun hIn =>
        ((hQueued _).mp hIn).resolve_right (hOld logged hMem),
      fun _ hIn => hIn, fun _ hIn => hIn, fun _ hIn => hasRow_of_mem (mem_append_left _ hIn)⟩
  refine ⟨h.rows.appendLocal hFresh, fun logged hMem hSince => ?_, fun hChecked logged hMem hCandidate => ?_,
    fun id hHeld => ?_, fun id hDead => Nat.lt_succ_of_lt (h.dead id hDead), fun entry hMem hGone => ?_,
    h.flushes_grows hGrows rfl⟩
  · rcases hLog logged hMem with hBefore | ⟨_, hIn⟩
    · exact (h.since logged hBefore hSince).imp_left hGrows.queued
    · exact .inl hIn
  · rcases hLog logged hMem with hBefore | ⟨_, hIn⟩
    · exact (h.checked hChecked logged hBefore hCandidate).imp_left hGrows.queued
    · exact .inl hIn
  · obtain ⟨hUnqueued, logged, hMem, hId, hCandidate⟩ := h.held id hHeld
    refine ⟨?_, logged, mem_append_left _ hMem, hId, hCandidate⟩
    rw [Bool.eq_false_iff, ne_eq, hQueued, hUnqueued]
    rintro (hIn | hSame)
    · cases hIn
    · exact hOld logged hMem (hSame.trans hId.symm)
  · rcases mem_append.mp hMem with hBefore | hNew
    · exact h.answered entry hBefore hGone
    · rw [mem_singleton.mp hNew] at hGone
      rcases hGone with hFlushed | hRejected
      · cases hFlushed
      · exact absurd (h.dead _ hRejected) (Nat.lt_irrefl _)

include h in
theorem Sound.commit {events : List (EventId × Payload)} (hDistinct : (events.map Prod.fst).Nodup)
    (hFresh : ∀ id ∈ events.map Prod.fst, id ∉ replica.log.map LogEvent.id) :
    Sound targetTask candidate (appendBatch replica events) := by
  induction events generalizing replica with
  | nil => exact h
  | cons event rest ih =>
    obtain ⟨hHead, hRest⟩ := nodup_cons.mp hDistinct
    obtain ⟨hNew, hLater⟩ := forall_mem_cons.mp hFresh
    refine ih (h.appendLocal hNew) hRest fun id hMem hIn => ?_
    simp only [Outbox.appendLocal, Outbox.enqueueNext, Outbox.appendTx, map_append, map_cons, map_nil,
      mem_append, mem_singleton] at hIn
    rcases hIn with hOld | rfl
    · exact hLater id hMem hOld
    · exact hHead hMem

include h in
theorem Sound.findLost {localTip : Nat}
    (hTip : replica.base ≤ localTip) (hIds : ∀ id ∈ serverIds, id ∈ replica.server) :
    Sound targetTask candidate (findLost candidate replica localTip serverIds) := by
  have hGrows : Grows candidate replica (Outbox.findLost candidate replica localTip serverIds) :=
    ⟨fun _ hMem => .inl hMem, fun _ _ hMine => hMine, fun _ hIn => hIn, fun _ hIn => hIn, fun _ hIn => hasRow_of_mem hIn⟩
  refine ⟨⟨h.rows.1, h.rows.2, h.rows.3, h.rows.4, h.rows.5, h.rows.6, h.rows.7, h.rows.8, h.rows.9⟩, h.since,
    fun _ event hMem hCandidate => ?_, fun id hHeld => ?_, h.dead, h.answered, h.flushes_grows hGrows rfl⟩
  · by_cases hQueued : queued replica event.id = true
    · exact .inl hQueued
    · by_cases hServer : event.id ∈ replica.server
      · exact .inr (.inr hServer)
      · refine .inr (.inl (mem_append_right _ (mem_map.mpr ⟨event, mem_filter.mpr ⟨hMem, ?_⟩, rfl⟩)))
        have hSeq : event.seq ≤ localTip := by
          by_contra hLate
          exact (h.since event hMem (by omega)).elim hQueued hServer
        simp only [Bool.and_eq_true, decide_eq_true_eq, Bool.not_eq_true']
        exact ⟨⟨⟨hSeq, hCandidate⟩, Bool.eq_false_iff.mpr hQueued⟩, fun hIn => hServer (hIds _ hIn)⟩
  · rcases mem_append.mp hHeld with hBefore | hNew
    · exact h.held id hBefore
    · obtain ⟨event, hLost, rfl⟩ := mem_map.mp hNew
      obtain ⟨hMem, hIs⟩ := mem_filter.mp hLost
      simp only [Bool.and_eq_true, decide_eq_true_eq, Bool.not_eq_true'] at hIs
      exact ⟨hIs.1.2, event, hMem, rfl, hIs.1.1.2⟩

structure Requeued (before after : Replica Payload) (events : List (LogEvent Payload)) : Prop where
  rows : Rows after
  same : after = { before with outbox := after.outbox, nextId := after.nextId }
  nextId : before.nextId ≤ after.nextId
  outbox : ∃ added, after.outbox = before.outbox ++ added ∧ added.map OutboxEntry.event = events ∧
    ∀ entry ∈ added, entry.flushed = false ∧ before.nextId ≤ entry.id

theorem Rows.requeued (h : Rows replica) (hLogged : ∀ event ∈ events, event ∈ replica.log)
    (hQueued : ∀ event ∈ events, queued replica event.id = false) (hDistinct : (events.map LogEvent.id).Nodup) :
    Requeued replica (events.foldl Outbox.enqueueNext replica) events := by
  induction events generalizing replica with
  | nil => exact ⟨h, rfl, Nat.le_refl _, [], (append_nil _).symm, rfl, fun _ hMem => absurd hMem not_mem_nil⟩
  | cons event rest ih =>
    obtain ⟨hIn, hLater⟩ := forall_mem_cons.mp hLogged
    obtain ⟨hFree, hLaterFree⟩ := forall_mem_cons.mp hQueued
    obtain ⟨hHead, hRest⟩ := nodup_cons.mp hDistinct
    have hNext : ∀ other ∈ rest, queued (Outbox.enqueueNext replica event) other.id = false := by
      intro other hMem
      rw [Bool.eq_false_iff, ne_eq]
      intro hIs
      rcases queued_append.mp hIs with hOld | hSame
      · rw [hLaterFree other hMem] at hOld
        cases hOld
      · exact hHead (mem_map.mpr ⟨other, hMem, hSame.symm⟩)
    obtain ⟨hRows, hSame, hId, added, hOutbox, hAdded, hNew⟩ := ih (h.enqueueNext hIn hFree) hLater hNext hRest
    obtain ⟨entry, hEntry, hEvent, hFlushed, hEntryId⟩ : ∃ entry : OutboxEntry Payload,
        (Outbox.enqueueNext replica event).outbox = replica.outbox ++ [entry] ∧ entry.event = event ∧
          entry.flushed = false ∧ entry.id = replica.nextId := ⟨_, rfl, rfl, rfl, rfl⟩
    refine ⟨hRows, hSame, Nat.le_of_succ_le hId, entry :: added, ?_, ?_, fun other hMem => ?_⟩
    · rw [foldl_cons, hOutbox, hEntry, append_assoc, singleton_append]
    · rw [map_cons, hEvent, hAdded]
    · rcases mem_cons.mp hMem with rfl | hMem
      · exact ⟨hFlushed, hEntryId.ge⟩
      · exact ⟨(hNew other hMem).1, Nat.le_of_succ_le (hNew other hMem).2⟩

include h in
theorem Sound.restoreLost
    (hIds : ∀ id ∈ serverIds, id ∈ replica.server) : Sound targetTask candidate (restoreLost replica serverIds) := by
  have hRestored : ∀ event ∈ (unconfirmedEvents replica).filter fun event => event.id ∉ serverIds,
      event ∈ replica.log ∧ event.id ∈ replica.unconfirmed := by
    intro event hMem
    obtain ⟨hMem, hHeld⟩ := mem_filter.mp (mem_filter.mp hMem).1
    exact ⟨hMem, of_decide_eq_true hHeld⟩
  have hDistinct : (((unconfirmedEvents replica).filter fun event => event.id ∉ serverIds).map LogEvent.id).Nodup :=
    h.rows.logged.sublist ((filter_sublist.trans filter_sublist).map _)
  obtain ⟨hRows, hSame, hNextId, added, hOutbox, hAdded, hNew⟩ := h.rows.requeued (fun event hMem => (hRestored event hMem).1)
    (fun event hMem => (h.held _ (hRestored event hMem).2).1) hDistinct
  generalize hMiddle : ((unconfirmedEvents replica).filter fun event => event.id ∉ serverIds).foldl
    Outbox.enqueueNext replica = middle at hRows hSame hNextId hOutbox
  have hAfter : Outbox.restoreLost replica serverIds = { middle with unconfirmed := [] } := by
    rw [Outbox.restoreLost, hMiddle]
  rw [hSame] at hAfter
  have hQueued : ∀ id, queued (Outbox.restoreLost replica serverIds) id = true ↔
      queued replica id = true ∨ ∃ entry ∈ added, entry.event.id = id := by
    intro id
    rw [hAfter]
    simp only [queued, hOutbox, any_append, Bool.or_eq_true, any_eq_true, decide_eq_true_eq]
  have hFrom : ∀ entry ∈ added, entry.event.id ∈ replica.unconfirmed := by
    intro entry hMem
    have hEvent : entry.event ∈ added.map OutboxEntry.event := mem_map_of_mem hMem
    rw [hAdded] at hEvent
    exact (hRestored _ hEvent).2
  have hGrows : Grows candidate replica (Outbox.restoreLost replica serverIds) := by
    refine ⟨fun event hMem => .inl (by rwa [hAfter] at hMem), fun event hMem hMine => ?_, fun id hIn => ?_, fun id hIn => ?_,
      fun entry hIn => hasRow_of_mem ?_⟩
    · rcases hMine with hIn | hCandidate
      · rcases (hQueued _).mp hIn with hOld | ⟨entry, hEntry, hId⟩
        · exact .inl hOld
        · obtain ⟨_, event', hMem', hId', hCandidate⟩ := h.held _ (hFrom entry hEntry)
          obtain rfl := h.rows.eq_of_id hMem' hMem (hId'.trans hId)
          exact .inr hCandidate
      · exact .inr hCandidate
    · rwa [hAfter]
    · rwa [hAfter]
    · rw [hAfter]
      change entry ∈ middle.outbox
      rw [hOutbox]
      exact mem_append_left _ hIn
  refine ⟨?_, ?_, ?_, ?_, ?_, ?_, h.flushes_grows hGrows (by rw [hAfter])⟩
  · rw [hAfter]
    rw [hSame] at hRows
    exact ⟨hRows.1, hRows.2, hRows.3, hRows.4, hRows.5, hRows.6, hRows.7, hRows.8, hRows.9⟩
  · intro event hMem hSince
    rw [hAfter] at hMem hSince
    exact (h.since event hMem hSince).imp hGrows.queued (hGrows.server _)
  · intro hChecked event hMem hCandidate
    rw [hAfter] at hChecked hMem
    rcases h.checked hChecked event hMem hCandidate with hIn | hHeld | hServer
    · exact .inl (hGrows.queued hIn)
    · by_cases hKnown : event.id ∈ serverIds
      · exact .inr (.inr (hGrows.server _ (hIds _ hKnown)))
      · refine .inl ((hQueued _).mpr (.inr ?_))
        have hRestore : event ∈ added.map OutboxEntry.event := by
          rw [hAdded]
          exact mem_filter.mpr ⟨mem_filter.mpr ⟨hMem, decide_eq_true hHeld⟩, decide_eq_true hKnown⟩
        obtain ⟨entry, hEntry, rfl⟩ := mem_map.mp hRestore
        exact ⟨entry, hEntry, rfl⟩
    · exact .inr (.inr (hGrows.server _ hServer))
  · intro id hHeld
    rw [hAfter] at hHeld
    cases hHeld
  · intro id hDead
    rw [hAfter] at hDead ⊢
    exact Nat.lt_of_lt_of_le (h.dead id hDead) hNextId
  · intro entry hMem hGone
    rw [hAfter] at hMem hGone
    change entry ∈ middle.outbox at hMem
    rw [hOutbox] at hMem
    rcases mem_append.mp hMem with hOld | hAdd
    · exact (h.answered entry hOld hGone).grows hGrows
    · obtain ⟨hFlushed, hId⟩ := hNew entry hAdd
      rcases hGone with hIs | hDead
      · rw [hFlushed] at hIs
        cases hIs
      · have hLt := h.dead _ hDead
        omega

include h in
theorem Sound.answer (id : EventId) (outcome : PushOutcome) :
    Sound targetTask candidate (answer replica id outcome) := by
  have hGrows : Grows candidate replica (Outbox.answer replica id outcome) := by
    cases outcome with
    | accepted => exact ⟨fun _ hMem => .inl hMem, fun _ _ hMine => hMine, fun _ hIn => mem_cons_of_mem _ hIn,
        fun _ hIn => hIn, fun _ hIn => hasRow_of_mem hIn⟩
    | rejected => exact ⟨fun _ hMem => .inl hMem, fun _ _ hMine => hMine, fun _ hIn => hIn,
        fun _ hIn => mem_cons_of_mem _ hIn, fun _ hIn => hasRow_of_mem hIn⟩
  have hRows : Rows (Outbox.answer replica id outcome) := by
    cases outcome <;>
      exact ⟨h.rows.1, h.rows.2, h.rows.3, h.rows.4, h.rows.5, h.rows.6, h.rows.7, h.rows.8, h.rows.9⟩
  have hSame : (Outbox.answer replica id outcome).flushes = replica.flushes := by cases outcome <;> rfl
  cases outcome with
  | accepted =>
    exact ⟨hRows, fun event hMem hSince => (h.since event hMem hSince).imp_right (hGrows.server _),
      fun hChecked event hMem hCandidate => (h.checked hChecked event hMem hCandidate).imp_right
        fun hRest => hRest.imp_right (hGrows.server _),
      h.held, h.dead, fun entry hMem hGone => (h.answered entry hMem hGone).grows hGrows, h.flushes_grows hGrows hSame⟩
  | rejected =>
    exact ⟨hRows, h.since, h.checked, h.held, h.dead,
      fun entry hMem hGone => (h.answered entry hMem hGone).grows hGrows, h.flushes_grows hGrows hSame⟩

include h in
theorem Sound.requeue : Sound targetTask candidate (requeueRejected replica) := by
  have hGrows : Grows candidate replica (requeueRejected replica) :=
    ⟨fun _ hMem => .inl hMem, fun _ _ hMine => hMine, fun _ hIn => hIn, fun _ hIn => hIn, fun _ hIn => hasRow_of_mem hIn⟩
  exact ⟨⟨h.rows.1, h.rows.2, h.rows.3, h.rows.4, h.rows.5, h.rows.6, h.rows.7, h.rows.8, h.rows.9⟩, h.since, h.checked,
    h.held, fun _ hDead => absurd hDead not_mem_nil,
    fun entry hMem hGone => h.answered entry hMem (hGone.imp_right fun hDead => absurd hDead not_mem_nil),
    h.flushes_grows hGrows rfl⟩

/-- Recording an acceptance keeps what the rows of the queue say of their events. -/
structure Flushed (id : Nat) (before after : Replica Payload) : Prop where
  same : after = { before with outbox := after.outbox }
  rows : ∃ mark : OutboxEntry Payload → OutboxEntry Payload, after.outbox = before.outbox.map mark ∧
    ∀ row, (mark row).id = row.id ∧ (mark row).originSeq = row.originSeq ∧ (mark row).event = row.event ∧
      ((mark row).flushed = true → row.flushed = true ∨ row.id = id)

theorem flushed_markFlushed {id : Nat} : Flushed id replica (markFlushed replica id) := by
  refine ⟨rfl, _, rfl, fun row => ?_⟩
  split
  · rename_i hId
    exact ⟨rfl, rfl, rfl, fun _ => .inr hId⟩
  · exact ⟨rfl, rfl, rfl, .inl⟩

include h in
theorem Sound.accepted {entry : OutboxEntry Payload}
    (hRow : HasRow replica entry) (hAnswered : Answered replica entry.event.id) :
    Sound targetTask candidate (markFlushed replica entry.id) := by
  obtain ⟨hSame, mark, hOutbox, hMark⟩ := (flushed_markFlushed : Flushed entry.id replica _)
  generalize markFlushed replica entry.id = after at hSame hOutbox
  have hEvents : after.outbox.map (fun row => row.event.id) = replica.outbox.map fun row => row.event.id := by
    rw [hOutbox, map_map]
    exact map_congr_left fun row _ => congrArg LogEvent.id (hMark row).2.2.1
  have hBefore : ∀ row ∈ after.outbox, ∃ old ∈ replica.outbox, row = mark old := by
    intro row hMem
    rw [hOutbox] at hMem
    obtain ⟨old, hOld, rfl⟩ := mem_map.mp hMem
    exact ⟨old, hOld, rfl⟩
  have hQueued : ∀ id, queued after id = true ↔ queued replica id = true := by
    intro id
    have hIn : ∀ rows : Replica Payload, queued rows id = true ↔ id ∈ rows.outbox.map fun row => row.event.id := by
      intro rows
      rw [queued_iff, mem_map]
    rw [hIn, hIn, hEvents]
  have hGrows : Grows candidate replica after := by
    refine ⟨fun event hMem => .inl (by rwa [hSame] at hMem), fun event _ hMine => hMine.imp_left (hQueued _).mp,
      fun id hIn => by rwa [hSame], fun id hIn => by rwa [hSame], fun row hIn => ?_⟩
    refine ⟨mark row, ?_, (hMark row).1, (hMark row).2.2.1⟩
    rw [hOutbox]
    exact mem_map_of_mem hIn
  have hRows : Rows after := by
    rw [hSame]
    refine ⟨h.rows.seqs, h.rows.latest, h.rows.logged, fun row hMem => ?_, ?_, ?_, fun row hMem => ?_, ?_, ?_⟩
    · obtain ⟨old, hOld, rfl⟩ := hBefore row hMem
      rw [(hMark old).2.2.1]
      exact h.rows.inLog old hOld
    · change after.outbox.Pairwise _
      rw [hOutbox]
      refine pairwise_map.mpr (h.rows.origins.imp fun {a b} hLt => ?_)
      rwa [(hMark a).2.1, (hMark b).2.1]
    · change after.outbox.Pairwise _
      rw [hOutbox]
      refine pairwise_map.mpr (h.rows.ids.imp fun {a b} hLt => ?_)
      rwa [(hMark a).1, (hMark b).1]
    · obtain ⟨old, hOld, rfl⟩ := hBefore row hMem
      rw [(hMark old).1]
      exact h.rows.nextId old hOld
    · exact hEvents ▸ h.rows.once
    · exact hEvents ▸ h.rows.committed
  refine ⟨hRows, ?_, ?_, ?_, ?_, ?_, h.flushes_grows hGrows (by rw [hSame])⟩
  · intro event hMem hSince
    rw [hSame] at hMem hSince
    exact (h.since event hMem hSince).imp hGrows.queued (hGrows.server _)
  · intro hChecked event hMem hCandidate
    rw [hSame] at hChecked hMem
    rcases h.checked hChecked event hMem hCandidate with hIn | hHeld | hServer
    · exact .inl (hGrows.queued hIn)
    · refine .inr (.inl ?_)
      rwa [hSame]
    · exact .inr (.inr (hGrows.server _ hServer))
  · intro id hHeld
    rw [hSame] at hHeld
    obtain ⟨hUnqueued, event, hMem, hId, hCandidate⟩ := h.held id hHeld
    refine ⟨?_, event, by rwa [hSame], hId, hCandidate⟩
    rw [Bool.eq_false_iff, ne_eq, hQueued, hUnqueued]
    exact Bool.false_ne_true
  · intro id hDead
    rw [hSame] at hDead ⊢
    exact h.dead id hDead
  · intro row hMem hGone
    obtain ⟨old, hOld, rfl⟩ := hBefore row hMem
    rw [(hMark old).2.2.1]
    refine Answered.grows ?_ hGrows
    rcases hGone with hFlushed | hDead
    · rcases (hMark old).2.2.2 hFlushed with hWas | hId
      · exact h.answered old hOld (.inl hWas)
      · obtain ⟨stored, hStored, hStoredId, hEvent⟩ := hRow
        obtain rfl := h.rows.entry_eq_of_id hOld hStored (hId.trans hStoredId.symm)
        rwa [hEvent]
    · rw [(hMark old).1, hSame] at hDead
      exact h.answered old hOld (.inr hDead)

include h in
theorem Sound.rejected {entry : OutboxEntry Payload}
    (hRow : HasRow replica entry) (hAnswered : Answered replica entry.event.id) :
    Sound targetTask candidate (markRejected replica entry.id) := by
  obtain ⟨stored, hStored, hId, hEvent⟩ := hRow
  have hGrows : Grows candidate replica (markRejected replica entry.id) :=
    ⟨fun _ hMem => .inl hMem, fun _ _ hMine => hMine, fun _ hIn => hIn, fun _ hIn => hIn, fun _ hIn => hasRow_of_mem hIn⟩
  refine ⟨⟨h.rows.1, h.rows.2, h.rows.3, h.rows.4, h.rows.5, h.rows.6, h.rows.7, h.rows.8, h.rows.9⟩, h.since, h.checked,
    h.held, fun id hDead => ?_, fun row hMem hGone => ?_, h.flushes_grows hGrows rfl⟩
  · rcases mem_cons.mp hDead with rfl | hDead
    · exact hId ▸ h.rows.nextId stored hStored
    · exact h.dead id hDead
  · rcases hGone with hFlushed | hDead
    · exact h.answered row hMem (.inl hFlushed)
    · rcases mem_cons.mp hDead with hSame | hDead
      · obtain rfl := h.rows.entry_eq_of_id hMem hStored (hSame.trans hId.symm)
        exact hEvent ▸ hAnswered
      · exact h.answered row hMem (.inr hDead)

theorem lookup_held {task : TaskId} (hListed : event ∈ events) (hSorted : events.Pairwise fun a b => a.seq < b.seq)
    (hTask : targetTask event.payload = some task) :
    ∃ first, (events.filterMap fun event => (targetTask event.payload).map fun task => (task, event.seq)).lookup task =
      some first ∧ first ≤ event.seq := by
  induction events with
  | nil => cases hListed
  | cons first rest ih =>
    obtain ⟨hFirst, hRest⟩ := pairwise_cons.mp hSorted
    have hLe : first.seq ≤ event.seq := by
      rcases mem_cons.mp hListed with rfl | hLater
      · exact Nat.le_refl _
      · exact (hFirst event hLater).le
    cases hOther : targetTask first.payload with
    | none =>
      rw [filterMap_cons_none (by rw [hOther]; rfl)]
      refine ih ((mem_cons.mp hListed).resolve_left ?_) hRest
      rintro rfl
      cases hOther.symm.trans hTask
    | some other =>
      rw [filterMap_cons_some (by rw [hOther]; rfl), lookup_cons]
      by_cases hSame : task = other
      · rw [hSame, beq_self_eq_true]
        exact ⟨first.seq, rfl, hLe⟩
      · rw [beq_false_of_ne hSame]
        refine ih ((mem_cons.mp hListed).resolve_left ?_) hRest
        rintro rfl
        exact hSame (Option.some.inj (hTask.symm.trans hOther))

include h in
theorem Sound.reading (hChecked : replica.logChecked = true) :
    FlushSound targetTask candidate replica (.reading (heldTasks targetTask replica)) := by
  intro event hMem hCandidate hQueued hServer task hTask
  have hHeld : event.id ∈ replica.unconfirmed := by
    rcases h.checked hChecked event hMem hCandidate with hIn | hIn | hIn
    · rw [hIn] at hQueued
      cases hQueued
    · exact hIn
    · exact absurd hIn hServer
  exact lookup_held (mem_filter.mpr ⟨hMem, decide_eq_true hHeld⟩) (h.rows.seqs.filter _) hTask

theorem mem_pending :
    entry ∈ pending replica ↔ entry ∈ replica.outbox ∧ entry.flushed = false ∧ entry.id ∉ replica.rejected := by
  simp only [pending, mem_orderBy, mem_filter, Bool.and_eq_true, Bool.not_eq_true', decide_eq_true_eq]

/-- The queue is read in the order of the log. -/
theorem pending_sorted : (pending replica).Pairwise fun a b => a.event.seq ≤ b.event.seq := by
  have : Std.Total fun a b : OutboxEntry Payload => a.event.seq ≤ b.event.seq := ⟨fun _ _ => Nat.le_total _ _⟩
  have : IsTrans (OutboxEntry Payload) fun a b => a.event.seq ≤ b.event.seq := ⟨fun _ _ _ => Nat.le_trans⟩
  exact pairwise_insertionSort _ _

theorem sendable_eq : sendable targetTask held replica limit =
    ((pending replica).filter fun entry => !waitsForHeld targetTask held entry).take (max limit 1) := by
  unfold sendable
  split
  · rename_i hEmpty
    rw [isEmpty_iff.mp hEmpty]
    have hNone : ∀ entry : OutboxEntry Payload, waitsForHeld targetTask [] entry = false := by
      intro entry
      unfold waitsForHeld
      cases targetTask entry.event.payload <;> rfl
    simp only [hNone, Bool.not_false, filter_true]
  · rfl

theorem mem_before {before after : List (OutboxEntry Payload)} {other : OutboxEntry Payload}
    (h : (before ++ entry :: after).Pairwise fun a b => a.event.seq ≤ b.event.seq)
    (hMem : other ∈ before ++ entry :: after) (hLt : other.event.seq < entry.event.seq) : other ∈ before := by
  rcases mem_append.mp hMem with hBefore | hRest
  · exact hBefore
  · have hAfter := (pairwise_cons.mp (pairwise_append.mp h).2.1).1
    rcases mem_cons.mp hRest with rfl | hLater
    · exact absurd hLt (Nat.lt_irrefl _)
    · exact absurd (hAfter other hLater) (Nat.not_le.mpr hLt)

include h in
theorem Sound.readPending (hReading : FlushSound targetTask candidate replica (.reading held)) :
    FlushSound targetTask candidate replica (.pushing (sendable targetTask held replica limit)) := by
  intro before entry after hSplit
  rw [sendable_eq] at hSplit
  generalize hFree : (pending replica).filter (fun entry => !waitsForHeld targetTask held entry) = free at hSplit
  have hWhole : free = before ++ entry :: (after ++ free.drop (max limit 1)) := by
    have hParts : free.take (max limit 1) ++ free.drop (max limit 1) = free := take_append_drop _ _
    rw [hSplit, append_assoc, cons_append] at hParts
    exact hParts.symm
  have hSorted : free.Pairwise fun a b => a.event.seq ≤ b.event.seq := hFree ▸ pending_sorted.filter _
  have hEntry : entry ∈ free := hWhole ▸ mem_append_right _ mem_cons_self
  rw [← hFree] at hEntry
  obtain ⟨hPending, hGoes⟩ := mem_filter.mp hEntry
  refine ⟨hasRow_of_mem (mem_pending.mp hPending).1, fun earlier hMem hMine ⟨task, hTask, hEntryTask⟩ hLt => ?_⟩
  -- What waits for a held event of the task holds back the entry too.
  have hFreeOf : ∀ first, held.lookup task = some first → ¬first < entry.event.seq := by
    intro first hFirst hBefore
    rw [waitsForHeld, hEntryTask, Option.bind_some, hFirst, Option.any_some, decide_eq_true hBefore] at hGoes
    cases hGoes
  cases hQueued : queued replica earlier.id with
  | true =>
    obtain ⟨row, hRow, hId⟩ := queued_iff.mp hQueued
    obtain rfl := h.rows.eq_of_id (h.rows.inLog row hRow) hMem hId
    by_cases hGone : row.flushed = true ∨ row.id ∈ replica.rejected
    · exact .inl (h.answered row hRow hGone)
    · obtain ⟨hFlushed, hDead⟩ := not_or.mp hGone
      refine .inr ⟨row, ?_, rfl⟩
      have hRowFree : row ∈ free := by
        rw [← hFree]
        refine mem_filter.mpr ⟨mem_pending.mpr ⟨hRow, Bool.not_eq_true _ ▸ hFlushed, hDead⟩, ?_⟩
        rw [waitsForHeld, hTask, Option.bind_some, Bool.not_eq_true', Option.any_eq_false]
        exact fun first hFirst => decide_eq_false fun hBefore => hFreeOf first hFirst (hBefore.trans hLt)
      rw [hWhole] at hRowFree hSorted
      exact mem_before hSorted hRowFree hLt
  | false =>
    rcases hMine with hIn | hCandidate
    · rw [hIn] at hQueued
      cases hQueued
    · by_cases hServer : earlier.id ∈ replica.server
      · exact .inl (.inl hServer)
      · obtain ⟨first, hFirst, hLe⟩ := hReading earlier hMem hCandidate hQueued hServer task hTask
        exact absurd (Nat.lt_of_le_of_lt hLe hLt) (hFreeOf first hFirst)

theorem InTurn.tail {entry : OutboxEntry Payload} {rest : List (OutboxEntry Payload)}
    (h : InTurn targetTask candidate replica (entry :: rest)) (hAnswered : Answered replica entry.event.id) :
    InTurn targetTask candidate replica rest := by
  intro before next after hSplit
  obtain ⟨hRow, hEarlier⟩ := h (entry :: before) next after (congrArg (entry :: ·) hSplit)
  refine ⟨hRow, fun earlier hMem hMine hTask hLt => ?_⟩
  rcases hEarlier earlier hMem hMine hTask hLt with hIs | ⟨other, hOther, hId⟩
  · exact .inl hIs
  · rcases mem_cons.mp hOther with rfl | hBefore
    · exact .inl (hId ▸ hAnswered)
    · exact .inr ⟨other, hBefore, hId⟩

theorem sound_step : Preserves (Step targetTask candidate) (Sound targetTask candidate) := by
  intro replica replica' hStep h
  cases hStep with
  | commit events hDistinct hFresh => exact h.commit hDistinct hFresh
  | incoming id payload hServer hFresh => exact h.incoming hServer hFresh
  | served id => exact h.answer id .accepted
  | findLost localTip serverIds hTip hIds => exact h.findLost hTip hIds
  | restoreLost serverIds hIds => exact h.restoreLost hIds
  | requeue => exact h.requeue
  | startFlush n hNew hChecked =>
    refine h.setFlush fun next hNext => ?_
    cases hNext
    exact h.reading hChecked
  | readPending n held limit hReading =>
    refine h.setFlush fun next hNext => ?_
    cases hNext
    exact h.readPending (h.flushes n _ hReading)
  | push n entry rest outcome hPushing =>
    have hAfter := h.answer entry.event.id outcome
    have hSame : (answer replica entry.event.id outcome).flushes = replica.flushes := by cases outcome <;> rfl
    have hTurn : FlushSound targetTask candidate (answer replica entry.event.id outcome) (.pushing (entry :: rest)) :=
      hAfter.flushes n _ (hSame ▸ hPushing)
    have hAnswered : Answered (answer replica entry.event.id outcome) entry.event.id := by
      cases outcome with
      | accepted => exact .inl mem_cons_self
      | rejected => exact .inr mem_cons_self
    refine hAfter.setFlush fun next hNext => ?_
    cases hNext
    exact ⟨⟨(hTurn [] entry rest rfl).1, hAnswered⟩, InTurn.tail hTurn hAnswered⟩
  | mark n entry rest outcome hMarking =>
    obtain ⟨⟨hRow, hAnswered⟩, _⟩ := h.flushes n _ hMarking
    have hAfter : Sound targetTask candidate (record replica entry outcome) := by
      cases outcome with
      | accepted => exact h.accepted hRow hAnswered
      | rejected => exact h.rejected hRow hAnswered
    have hSame : (record replica entry outcome).flushes = replica.flushes := by cases outcome <;> rfl
    have hFlush : FlushSound targetTask candidate (record replica entry outcome) (.marking entry outcome rest) :=
      hAfter.flushes n _ (hSame ▸ hMarking)
    refine hAfter.setFlush fun next hNext => ?_
    cases hNext
    exact hFlush.2
  | stop n => exact h.setFlush fun next hNext => by cases hNext

/-- A log as an older binary left it: numbered in order, each event once. -/
structure InOrder (log : List (LogEvent Payload)) : Prop where
  seqs : log.Pairwise fun a b => a.seq < b.seq
  ids : (log.map LogEvent.id).Nodup

theorem sound_left {log : List (LogEvent Payload)} (h : InOrder log) : Sound targetTask candidate (left log) where
  rows := ⟨h.seqs, fun event hMem => le_foldr_max (mem_map_of_mem hMem), h.ids,
    fun _ hMem => absurd hMem not_mem_nil, .nil, .nil, fun _ hMem => absurd hMem not_mem_nil, .nil, .slnil⟩
  since event hMem hSince := absurd (le_foldr_max (mem_map_of_mem hMem)) (Nat.not_le.mpr hSince)
  checked hChecked := by cases hChecked
  held _ hHeld := absurd hHeld not_mem_nil
  dead _ hDead := absurd hDead not_mem_nil
  answered _ hMem := absurd hMem not_mem_nil
  flushes _ _ hFlush := by cases hFlush

structure Delivers (targetTask : Payload → Option TaskId) (candidate : LogEvent Payload → Bool)
    (replica : Replica Payload) : Prop where
  /-- Every committed event has exactly one entry. -/
  once : ∀ id ∈ replica.committed, ∃! entry, entry ∈ replica.outbox ∧ entry.event.id = id
  /-- Each entry has its own origin sequence; it grows in the order of the commits. -/
  origins : replica.outbox.Pairwise fun a b => a.originSeq < b.originSeq
  inOrder : replica.committed.Sublist (replica.outbox.map fun entry => entry.event.id)
  /-- What a flush is about to push comes after the answers to the earlier events of
  its task. -/
  behind : ∀ n entry rest, replica.flushes n = some (.pushing (entry :: rest)) →
    ∀ earlier ∈ replica.log, Mine candidate replica earlier → SameTask targetTask earlier entry.event →
      earlier.seq < entry.event.seq → Answered replica earlier.id
  /-- What no server answered is pending, whatever flushes stopped. -/
  unsent : ∀ entry ∈ replica.outbox, ¬Answered replica entry.event.id → entry ∈ pending replica

include h in
theorem Sound.delivers : Delivers targetTask candidate replica where
  once id hMem := by
    obtain ⟨entry, hEntry, hId⟩ := mem_map.mp (h.rows.committed.subset hMem)
    refine ⟨entry, ⟨hEntry, hId⟩, fun other ⟨hOther, hOtherId⟩ => ?_⟩
    exact inj_on_of_nodup_map h.rows.once hOther hEntry (hOtherId.trans hId.symm)
  origins := h.rows.origins
  inOrder := h.rows.committed
  behind n entry rest hPushing earlier hMem hMine hTask hLt := by
    obtain ⟨_, hEarlier⟩ := h.flushes n _ hPushing [] entry rest rfl
    exact (hEarlier earlier hMem hMine hTask hLt).resolve_right fun ⟨_, hNone, _⟩ => not_mem_nil hNone
  unsent entry hMem hNone := by
    have hHere : ¬(entry.flushed = true ∨ entry.id ∈ replica.rejected) := fun hGone => hNone (h.answered entry hMem hGone)
    obtain ⟨hFlushed, hDead⟩ := not_or.mp hHere
    exact mem_pending.mpr ⟨hMem, Bool.not_eq_true _ ▸ hFlushed, hDead⟩

/-- Whatever the processes of a device do, the queue delivers in order. -/
theorem outbox_delivers {log : List (LogEvent Payload)} (hLog : InOrder log)
    (h : Trace (Step targetTask candidate) (left log) replica) : Delivers targetTask candidate replica :=
  (sound_step.trace h (sound_left hLog)).delivers

/-- Every event is about one task, and an older binary lost none. -/
private def oneTask (_ : Nat) : Option TaskId := some ⟨1⟩

private def noneLost (_ : LogEvent Nat) : Bool := false

private def entryOf (id : Nat) : OutboxEntry Nat := ⟨id, id, ⟨⟨id⟩, id, 0⟩, false⟩

/-- Two events of the task are committed, and a flush has read both. -/
private def readBoth : Replica Nat :=
  setFlush (setFlush (findLost noneLost (appendBatch (left []) [(⟨1⟩, 0), (⟨2⟩, 0)]) 0 []) 0 (some (.reading []))) 0
    (some (.pushing [entryOf 1, entryOf 2]))

private def refusedFirst : Replica Nat :=
  setFlush (record (setFlush (answer readBoth ⟨1⟩ .rejected) 0 (some (.marking (entryOf 1) .rejected [entryOf 2])))
    (entryOf 1) .rejected) 0 (some (.pushing [entryOf 2]))

private theorem inOrder_nil : InOrder ([] : List (LogEvent Nat)) := ⟨.nil, .nil⟩

private theorem reaches_refusedFirst : Trace (Step oneTask noneLost) (left []) refusedFirst := by
  have hCommit : Step oneTask noneLost (left []) (appendBatch (left []) [(⟨1⟩, 0), (⟨2⟩, 0)]) :=
    .commit _ (by decide) (by decide)
  have hSearch : Step oneTask noneLost (appendBatch (left []) [(⟨1⟩, 0), (⟨2⟩, 0)]) _ :=
    .findLost 0 [] (Nat.le_refl 0) fun _ hIn => absurd hIn not_mem_nil
  have hStart : Step oneTask noneLost (findLost noneLost (appendBatch (left []) [(⟨1⟩, 0), (⟨2⟩, 0)]) 0 []) _ :=
    .startFlush 0 rfl rfl
  have hRead : Step oneTask noneLost (setFlush
      (findLost noneLost (appendBatch (left []) [(⟨1⟩, 0), (⟨2⟩, 0)]) 0 []) 0 (some (.reading []))) readBoth :=
    .readPending 0 [] 100 rfl
  have hPush : Step oneTask noneLost readBoth _ := .push 0 (entryOf 1) [entryOf 2] .rejected rfl
  have hMark : Step oneTask noneLost
      (setFlush (answer readBoth ⟨1⟩ .rejected) 0 (some (.marking (entryOf 1) .rejected [entryOf 2]))) refusedFirst :=
    .mark 0 (entryOf 1) [entryOf 2] .rejected rfl
  exact (((((Relation.ReflTransGen.single hCommit).tail hSearch).tail hStart).tail hRead).tail hPush).tail hMark

theorem outbox_delivers_refused : Delivers oneTask noneLost refusedFirst :=
  outbox_delivers inOrder_nil reaches_refusedFirst

/-- The second event of a task is pushed although the server never took the first. -/
theorem pushed_behind_dead_letter : ¬∀ replica : Replica Nat, Trace (Step oneTask noneLost) (left []) replica →
    ∀ n entry rest, replica.flushes n = some (.pushing (entry :: rest)) →
      ∀ earlier ∈ replica.log, Mine noneLost replica earlier → SameTask oneTask earlier entry.event →
        earlier.seq < entry.event.seq → earlier.id ∈ replica.server := by
  intro hClaim
  have hTaken := hClaim refusedFirst reaches_refusedFirst 0 (entryOf 2) [] rfl ⟨⟨1⟩, 1, 0⟩ mem_cons_self (.inl rfl)
    ⟨⟨1⟩, rfl, rfl⟩ (by decide)
  exact absurd hTaken not_mem_nil

end Outbox
end Daruma
