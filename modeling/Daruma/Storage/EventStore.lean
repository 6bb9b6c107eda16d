import Daruma.Storage.Database
import Mathlib.Algebra.Ring.Nat

/-! The table behind the log. A batch is inserted in chunks of one transaction, and the
numbers of its rows are recovered from the last rowid of each chunk. -/
namespace Daruma
namespace EventStore

open List

/-- The rows of `events`, and what `sqlite_sequence` holds for it. -/
structure Events where
  rows : List EventEnvelope
  sequence : Nat

/-- The number of rows of one statement. -/
def CHUNK : Nat := 3000

def maxRowid : Nat := 2 ^ 63 - 1

/-- `AUTOINCREMENT`: one more than any rowid that was ever there. -/
def nextRowid (table : Events) : Nat := max table.sequence ((table.rows.map EventEnvelope.seq).foldr max 0) + 1

/-- The two unique indexes of the table. -/
def collides (envelope stored : EventEnvelope) : Bool :=
  stored.id = envelope.id || (envelope.originDeviceId.isSome && stored.originDeviceId = envelope.originDeviceId &&
    stored.originSeq = envelope.originSeq)

def insertRow (table : Events) (envelope : EventEnvelope) : Result Events :=
  let rowid := nextRowid table
  if maxRowid < rowid then .error (.storage "database or disk is full")
  else if table.rows.any (collides envelope) then .error (.storage "UNIQUE constraint failed")
  else .ok ⟨table.rows ++ [{ envelope with seq := rowid }], rowid⟩

def insertValues : Events → List EventEnvelope → Result Events
  | table, [] => .ok table
  | table, envelope :: rest =>
    match insertRow table envelope with
    | .error e => .error e
    | .ok table => insertValues table rest

/-- What went wrong outside of the database, by the statements of a call. -/
abbrev Faults := Nat → Bool

def execute {α : Type} (faults : Faults) (statement : Nat) (result : Result α) : Result α :=
  if faults statement then .error (.storage "disk I/O error") else result

def numberChunk (lastRowid : Nat) (chunk : List EventEnvelope) : List EventEnvelope :=
  let firstRowid := lastRowid - chunk.length + 1
  chunk.mapIdx fun i envelope => { envelope with seq := firstRowid + i }

def insertChunks (faults : Faults) (statement : Nat) (table : Events) (entries out : List EventEnvelope) :
    Result (List EventEnvelope × Events) :=
  if entries.isEmpty then .ok (out, table)
  else
    match execute faults statement (insertValues table (entries.take CHUNK)) with
    | .error e => .error e
    | .ok inserted => insertChunks faults (statement + 1) inserted (entries.drop CHUNK)
        (out ++ numberChunk inserted.sequence (entries.take CHUNK))
termination_by entries.length
decreasing_by
  have hSome : entries ≠ [] := by simpa using ‹¬entries.isEmpty = true›
  have hLength := length_pos_iff.mpr hSome
  rw [length_drop, CHUNK]
  omega

/-- One transaction: a failure before its commit, or of it, leaves the table as it was. -/
def appendBatch (faults : Faults) (table : Events) (envelopes : List EventEnvelope) : Result (List EventEnvelope × Events) :=
  if envelopes.isEmpty then .ok ([], table)
  else
    match execute faults 0 (.ok ()) with
    | .error e => .error e
    | .ok _ =>
      match insertChunks faults 2 table envelopes [] with
      | .error e => .error e
      | .ok inserted => execute faults 1 (.ok inserted)

def appendOn (faults : Faults) (table : Events) (envelope : EventEnvelope) : Result (List EventEnvelope × Events) :=
  match execute faults 0 (insertRow table envelope) with
  | .error e => .error e
  | .ok inserted => .ok ([{ envelope with seq := inserted.sequence }], inserted)

/-- The generated column: measurements, which a purge may take. -/
def isTelemetry : Event → Bool
  | .audit (.operationalMetricRecorded _) => true
  | _ => false

def Events.purgeTelemetryBefore (table : Events) (cutoff : Timestamp) : Events :=
  { table with rows := table.rows.filter fun row => !(isTelemetry row.payload && decide (row.occurredAt < cutoff)) }

def latestSeq (table : Events) : Nat := table.sequence

def numbered (first : Nat) (envelopes : List EventEnvelope) : List EventEnvelope :=
  envelopes.mapIdx fun i envelope => { envelope with seq := first + i }

theorem numbered_append (first : Nat) (a b : List EventEnvelope) :
    numbered first (a ++ b) = numbered first a ++ numbered (first + a.length) b := by
  simp [numbered, mapIdx_append, Nat.add_assoc, Nat.add_comm a.length]

def Sound (table : Events) : Prop := ∀ row ∈ table.rows, row.seq ≤ table.sequence

/-- A table with a batch behind it, under the numbers that follow the sequence. -/
structure Takes (table : Events) (envelopes : List EventEnvelope) (after : Events) : Prop where
  rows : after.rows = table.rows ++ numbered (table.sequence + 1) envelopes
  sequence : after.sequence = table.sequence + envelopes.length

variable {table after : Events} {envelopes : List EventEnvelope} {faults : Faults}

theorem Takes.sound (h : Takes table envelopes after) (hSound : Sound table) : Sound after := by
  intro row hRow
  rw [h.rows] at hRow
  rw [h.sequence]
  rcases mem_append.mp hRow with hOld | hNew
  · exact (hSound row hOld).trans (Nat.le_add_right _ _)
  · obtain ⟨i, hi, rfl⟩ := mem_mapIdx.mp hNew
    dsimp only
    omega

theorem Takes.trans {last : Events} {more : List EventEnvelope} (h : Takes table envelopes after)
    (h' : Takes after more last) : Takes table (envelopes ++ more) last := by
  constructor
  · rw [h'.rows, h.rows, h.sequence, numbered_append, append_assoc, Nat.add_right_comm]
  · rw [h'.sequence, h.sequence, length_append, Nat.add_assoc]

theorem nextRowid_eq (h : Sound table) : nextRowid table = table.sequence + 1 := by
  have hLargest : (table.rows.map EventEnvelope.seq).foldr max 0 ≤ table.sequence := by
    unfold Sound at h
    generalize table.rows = rows at h
    induction rows with
    | nil => exact Nat.zero_le _
    | cons row rest ih =>
      obtain ⟨hRow, hRest⟩ := forall_mem_cons.mp h
      exact max_le hRow (ih hRest)
  rw [nextRowid, max_eq_left hLargest]

theorem insertRow_takes {envelope : EventEnvelope} (h : Sound table) (hOk : insertRow table envelope = .ok after) :
    Takes table [envelope] after := by
  unfold insertRow at hOk
  rw [nextRowid_eq h] at hOk
  dsimp only at hOk
  split at hOk
  · cases hOk
  · split at hOk
    · cases hOk
    · cases hOk
      exact ⟨rfl, rfl⟩

theorem insertValues_takes (h : Sound table) (hOk : insertValues table envelopes = .ok after) :
    Takes table envelopes after := by
  induction envelopes generalizing table with
  | nil =>
    cases hOk
    exact ⟨(append_nil _).symm, rfl⟩
  | cons envelope rest ih =>
    unfold insertValues at hOk
    split at hOk
    · cases hOk
    · rename_i inserted hInserted
      have hFirst := insertRow_takes h hInserted
      exact hFirst.trans (ih (hFirst.sound h) hOk)

theorem execute_ok {α : Type} {statement : Nat} {result : Result α} {a : α}
    (h : execute faults statement result = .ok a) : result = .ok a := by
  unfold execute at h
  split at h
  · cases h
  · exact h

theorem Takes.numberChunk_eq (h : Takes table envelopes after) :
    numberChunk after.sequence envelopes = numbered (table.sequence + 1) envelopes := by
  rw [numberChunk, h.sequence, Nat.add_sub_cancel]
  rfl

theorem insertChunks_takes {statement : Nat} {out stored : List EventEnvelope} (h : Sound table)
    (hOk : insertChunks faults statement table envelopes out = .ok (stored, after)) :
    Takes table envelopes after ∧ stored = out ++ numbered (table.sequence + 1) envelopes := by
  induction statement, table, envelopes, out using insertChunks.induct faults with
  | case1 statement table entries out hNone =>
    rw [insertChunks, if_pos hNone] at hOk
    cases hOk
    rw [isEmpty_iff.mp hNone]
    exact ⟨⟨(append_nil _).symm, rfl⟩, (append_nil _).symm⟩
  | case2 statement table entries out hSome e hFailed =>
    rw [insertChunks, if_neg hSome, hFailed] at hOk
    cases hOk
  | case3 statement table entries out hSome inserted hInserted ih =>
    rw [insertChunks, if_neg hSome, hInserted] at hOk
    have hChunk := insertValues_takes h (execute_ok hInserted)
    obtain ⟨hRest, hStored⟩ := ih (hChunk.sound h) hOk
    have hAll := hChunk.trans hRest
    rw [take_append_drop] at hAll
    refine ⟨hAll, ?_⟩
    rw [hStored, hChunk.numberChunk_eq, hChunk.sequence, append_assoc, Nat.add_right_comm, ← numbered_append,
      take_append_drop]

theorem appendBatch_takes {stored : List EventEnvelope} (h : Sound table)
    (hOk : appendBatch faults table envelopes = .ok (stored, after)) :
    stored = numbered (table.sequence + 1) envelopes ∧ Takes table envelopes after := by
  unfold appendBatch at hOk
  split at hOk
  · rename_i hNone
    cases hOk
    rw [isEmpty_iff.mp hNone]
    exact ⟨rfl, (append_nil _).symm, rfl⟩
  · split at hOk
    · cases hOk
    · split at hOk
      · cases hOk
      · rename_i inserted hInserted
        cases execute_ok hOk
        obtain ⟨hTakes, hStored⟩ := insertChunks_takes h hInserted
        exact ⟨hStored, hTakes⟩

theorem appendOn_takes {envelope : EventEnvelope} {stored : List EventEnvelope} (h : Sound table)
    (hOk : appendOn faults table envelope = .ok (stored, after)) :
    stored = numbered (table.sequence + 1) [envelope] ∧ Takes table [envelope] after := by
  unfold appendOn at hOk
  split at hOk
  · cases hOk
  · rename_i inserted hInserted
    have hTakes := insertRow_takes h (execute_ok hInserted)
    cases hOk
    rw [hTakes.sequence]
    exact ⟨rfl, hTakes⟩

/-- A table, and every number that a call was answered with. -/
structure Log where
  table : Events
  issued : List Nat

/-- An error leaves the table as it was. -/
def Log.answered (log : Log) : Result (List EventEnvelope × Events) → Log
  | .error _ => log
  | .ok (stored, table) => ⟨table, log.issued ++ stored.map EventEnvelope.seq⟩

/-- Any calls on the table of a new database. -/
inductive Reaches : Log → Prop
  | start : Reaches ⟨⟨[], 0⟩, []⟩
  | append {log : Log} (h : Reaches log) (faults : Faults) (envelope : EventEnvelope) :
    Reaches (log.answered (appendOn faults log.table envelope))
  | appendBatch {log : Log} (h : Reaches log) (faults : Faults) (envelopes : List EventEnvelope) :
    Reaches (log.answered (EventStore.appendBatch faults log.table envelopes))
  | purge {log : Log} (h : Reaches log) (cutoff : Timestamp) :
    Reaches { log with table := log.table.purgeTelemetryBefore cutoff }

/-- The sequence knows every number that is in the table or was answered. -/
def Log.Known (log : Log) : Prop := Sound log.table ∧ ∀ n ∈ log.issued, n ≤ latestSeq log.table

variable {log : Log}

theorem Log.Known.takes {stored : List EventEnvelope} (h : log.Known)
    (hTakes : stored = numbered (log.table.sequence + 1) envelopes ∧ Takes log.table envelopes after) :
    (log.answered (.ok (stored, after))).Known := by
  obtain ⟨rfl, hTakes⟩ := hTakes
  have hSound := hTakes.sound h.1
  refine ⟨hSound, fun n hn => ?_⟩
  rcases mem_append.mp hn with hOld | hNew
  · exact (h.2 n hOld).trans ((Nat.le_add_right _ _).trans_eq hTakes.sequence.symm)
  · obtain ⟨row, hRow, rfl⟩ := mem_map.mp hNew
    exact hSound row (hTakes.rows ▸ mem_append_right _ hRow)

theorem Reaches.known (h : Reaches log) : log.Known := by
  induction h with
  | start => exact ⟨fun _ h => absurd h not_mem_nil, fun _ h => absurd h not_mem_nil⟩
  | @append log _ faults envelope ih =>
    cases hCall : appendOn faults log.table envelope with
    | error e => exact ih
    | ok answer => exact ih.takes (appendOn_takes ih.1 hCall)
  | @appendBatch log _ faults envelopes ih =>
    cases hCall : EventStore.appendBatch faults log.table envelopes with
    | error e => exact ih
    | ok answer => exact ih.takes (appendBatch_takes ih.1 hCall)
  | purge _ cutoff ih => exact ⟨fun row hRow => ih.1 row (mem_filter.mp hRow).1, ih.2⟩

/-- Whatever was appended and purged before, a batch is stored whole under consecutive numbers
that were never given out, or not at all; and a purge does not take the latest number back. -/
theorem batches_numbered (h : Reaches log) :
    (∀ faults envelopes,
      match appendBatch faults log.table envelopes with
      | .error e => log.answered (.error e) = log
      | .ok (stored, after) => ∃ first, stored = numbered first envelopes ∧
          after.rows = log.table.rows ++ stored ∧ latestSeq after + 1 = first + envelopes.length ∧
          (∀ n ∈ log.issued, n < first) ∧ ∀ row ∈ log.table.rows, row.seq < first) ∧
      ∀ cutoff, latestSeq (log.table.purgeTelemetryBefore cutoff) = latestSeq log.table := by
  obtain ⟨hSound, hIssued⟩ := h.known
  refine ⟨fun faults envelopes => ?_, fun _ => rfl⟩
  split
  · rfl
  · rename_i stored after hStored
    obtain ⟨rfl, hTakes⟩ := appendBatch_takes hSound hStored
    refine ⟨log.table.sequence + 1, rfl, hTakes.rows, ?_, fun n hn => Nat.lt_succ_of_le (hIssued n hn),
      fun row hRow => Nat.lt_succ_of_le (hSound row hRow)⟩
    rw [latestSeq, hTakes.sequence, Nat.add_right_comm]

theorem batches_numbered_after_purge :
    let metric : OperationalMetric := ⟨0, .step, "", none, "daruma", "rule.advisory_evaluated", .ok, 0, none, 0, none, none, .null⟩
    let envelope : EventEnvelope := .new ⟨1⟩ 0 .anyUser (.audit (.operationalMetricRecorded metric))
    latestSeq (Events.purgeTelemetryBefore (Log.answered ⟨⟨[], 0⟩, []⟩ (appendOn (fun _ => false) ⟨[], 0⟩ envelope)).table 1) =
      latestSeq (Log.answered ⟨⟨[], 0⟩, []⟩ (appendOn (fun _ => false) ⟨[], 0⟩ envelope)).table :=
  (batches_numbered (.append .start _ _)).2 1

end EventStore
end Daruma
