import Daruma.Storage.Database

/-! The table of processed command ids, and the filter in front of it. The filter
may also contain ids that were never inserted. -/
namespace Daruma

open KeyedTable

structure ProcessedCommand where
  clientCommandId : Nat
  serverEventId : EventId
  serverEventSeq : Nat
  createdAt : Timestamp

structure IdempotencyRepo where
  rows : KeyedTable Nat ProcessedCommand ProcessedCommand.clientCommandId
  filter : Nat → Bool

namespace IdempotencyRepo

def reservedEventId : EventId := ⟨0⟩

def new : IdempotencyRepo := ⟨.empty, fun _ => false⟩

/-- The filter of a server that starts: the ids of the stored rows, and others. -/
def warm (self : IdempotencyRepo) (others : Nat → Bool) : IdempotencyRepo :=
  { self with filter := fun id => self.rows.contains id || others id }

def lookup (self : IdempotencyRepo) (id : Nat) : Option (EventId × Nat) :=
  if !self.filter id then none
  else match self.rows.find? id with
    | none => none
    | some row =>
      if row.serverEventSeq ≤ 0 || row.serverEventId = reservedEventId then none
      else some (row.serverEventId, row.serverEventSeq)

/-- Insert an id into the filter. Others may seem to be in it from then on. -/
def mark (self : IdempotencyRepo) (id : Nat) (others : Nat → Bool) : IdempotencyRepo :=
  { self with filter := fun other => self.filter other || other = id || others other }

def reserve (self : IdempotencyRepo) (id : Nat) (now : Timestamp) (others : Nat → Bool) : Bool × IdempotencyRepo :=
  match self.rows.find? id with
  | some _ => (false, self.mark id others)
  | none => (true, { self.mark id others with rows := self.rows.upsert ⟨id, reservedEventId, 0, now⟩ })

/-- Fill a reservation. -/
def complete (self : IdempotencyRepo) (id : Nat) (eventId : EventId) (eventSeq : Nat) : IdempotencyRepo :=
  { self with rows := self.rows.modify id fun row =>
      if row.serverEventSeq = 0 then { row with serverEventId := eventId, serverEventSeq := eventSeq } else row }

/-- Drop an unfilled reservation. -/
def release (self : IdempotencyRepo) (id : Nat) : IdempotencyRepo :=
  { self with rows := self.rows.filter fun row => !(row.clientCommandId = id && row.serverEventSeq = 0) }

def cleanupBefore (self : IdempotencyRepo) (cutoff : Timestamp) : IdempotencyRepo :=
  { self with rows := self.rows.filter fun row => !decide (row.createdAt < cutoff) }

variable {repo : IdempotencyRepo} {id other : Nat} {now : Timestamp} {others : Nat → Bool}

variable {eventId : EventId} {eventSeq : Nat}

theorem lookup_some (h : repo.lookup id = some (eventId, eventSeq)) :
    ∃ row, repo.rows.find? id = some row ∧ row.serverEventSeq ≠ 0 ∧ row.serverEventId = eventId ∧
      row.serverEventSeq = eventSeq := by
  unfold lookup at h
  split at h
  · cases h
  · split at h
    · cases h
    · rename_i row hRow
      split at h
      · cases h
      · rename_i hFilled
        cases h
        refine ⟨row, hRow, fun hZero => hFilled ?_, rfl, rfl⟩
        rw [hZero]
        rfl

theorem reserve_rows_of_some {row : ProcessedCommand} (h : repo.rows.find? id = some row) :
    (repo.reserve id now others).1 = false ∧ (repo.reserve id now others).2.rows = repo.rows := by
  unfold reserve
  rw [h]
  exact ⟨rfl, rfl⟩

theorem reserve_of_none (h : repo.rows.find? id = none) :
    (repo.reserve id now others).1 = true ∧ ∀ other, (repo.reserve id now others).2.rows.find? other =
      if id = other then some ⟨id, reservedEventId, 0, now⟩ else repo.rows.find? other := by
  unfold reserve
  rw [h]
  exact ⟨rfl, fun other => find?_upsert _ _ _⟩

theorem complete_find? :
    (repo.complete id eventId eventSeq).rows.find? other = if id = other then (repo.rows.find? other).map fun row =>
      if row.serverEventSeq = 0 then { row with serverEventId := eventId, serverEventSeq := eventSeq } else row
      else repo.rows.find? other := by
  refine find?_modify _ _ _ _ fun row => ?_
  split <;> rfl

theorem release_find? : (repo.release id).rows.find? other =
    (repo.rows.find? other).filter fun row => !(row.clientCommandId = id && row.serverEventSeq = 0) :=
  find?_filter _ _ _

theorem cleanupBefore_eq {cutoff : Timestamp} (h : ∀ row ∈ repo.rows, cutoff ≤ row.createdAt) :
    (repo.cleanupBefore cutoff).rows = repo.rows := by
  refine filter_eq_self fun row hMem => ?_
  rw [Bool.not_eq_true', decide_eq_false_iff_not]
  exact not_lt.mpr (h row hMem)

end IdempotencyRepo
end Daruma
