import Daruma.Domain.Task
import Mathlib.Data.Prod.Lex
import Mathlib.Order.Bounds.Basic

/-! Which of several concurrent events on one field stands. Two are decided at a time, and
the one that stands at the end does not depend on who was decided against whom. -/
namespace Daruma

inductive ConflictOp where
  | create | update | delete
  | status (status : Status)

structure ConflictRecord where
  eventId : EventId
  occurredAt : Timestamp
  op : ConflictOp
  diff : JsonValue

inductive ConflictReason where
  | deleteWins | doneMonotone | lastWriteWins
  deriving DecidableEq

def ConflictReason.asStr : ConflictReason → String
  | .deleteWins => "delete_wins"
  | .doneMonotone => "done_monotone"
  | .lastWriteWins => "last_write_wins"

/-- The event that reports a decision. No projection reads it. -/
structure ConflictResolved where
  winnerEventId : EventId
  loserEventId : EventId
  reason : String
  loserDiff : JsonValue

structure ConflictDecision where
  winnerEventId : EventId
  loserEventId : EventId
  reason : ConflictReason
  resolvedEvent : ConflictResolved

namespace ConflictOp

def isDelete : ConflictOp → Bool
  | .delete => true
  | _ => false

def isDoneStatus : ConflictOp → Bool
  | .status .done => true
  | _ => false

end ConflictOp

namespace Conflict

def compareLww (a b : ConflictRecord) : Ordering :=
  match compare a.occurredAt b.occurredAt with
  | .eq => compare a.eventId.uuid b.eventId.uuid
  | order => order

/-- The winner, the loser and why. -/
def judge (a b : ConflictRecord) : ConflictRecord × ConflictRecord × ConflictReason :=
  if a.op.isDelete ≠ b.op.isDelete then
    if a.op.isDelete then (a, b, .deleteWins) else (b, a, .deleteWins)
  else if a.op.isDoneStatus ≠ b.op.isDoneStatus then
    if a.op.isDoneStatus then (a, b, .doneMonotone) else (b, a, .doneMonotone)
  else if compareLww a b ≠ .lt then (a, b, .lastWriteWins)
  else (b, a, .lastWriteWins)

def resolveConflict (a b : ConflictRecord) : ConflictDecision :=
  let (winner, loser, reason) := judge a b
  ⟨winner.eventId, loser.eventId, reason, ⟨winner.eventId, loser.eventId, reason.asStr, loser.diff⟩⟩

/-- The one of two events that a decision names. -/
def winner (a b : ConflictRecord) : ConflictRecord :=
  if (resolveConflict a b).winnerEventId = a.eventId then a else b

/-- Events as a replica decides between them: in some order, in some grouping. -/
inductive Grouping where
  | one (record : ConflictRecord)
  | both (first second : Grouping)

namespace Grouping

def records : Grouping → List ConflictRecord
  | one record => [record]
  | both first second => first.records ++ second.records

def stands : Grouping → ConflictRecord
  | one record => record
  | both first second => winner first.stands second.stands

end Grouping

/-- What decides between events: a deletion first, then a completion, then the time and the id. -/
def rank (record : ConflictRecord) : Bool ×ₗ Bool ×ₗ Timestamp ×ₗ Nat :=
  toLex (record.op.isDelete, toLex (record.op.isDoneStatus, toLex (record.occurredAt, record.eventId.uuid)))

/-- One event stands against another one. -/
def Beats (a b : ConflictRecord) : Prop :=
  (a.op.isDelete = true ∧ b.op.isDelete = false) ∨
    a.op.isDelete = b.op.isDelete ∧ ((a.op.isDoneStatus = true ∧ b.op.isDoneStatus = false) ∨
      a.op.isDoneStatus = b.op.isDoneStatus ∧ (b.occurredAt < a.occurredAt ∨
        b.occurredAt = a.occurredAt ∧ b.eventId.uuid < a.eventId.uuid))

variable {a b : ConflictRecord}

theorem rank_lt_iff : rank b < rank a ↔ Beats a b := by
  unfold rank Beats
  simp only [Prod.Lex.toLex_lt_toLex, Bool.lt_iff]
  tauto

theorem id_of_rank (h : rank a = rank b) : a.eventId = b.eventId := by
  have hUuid : a.eventId.uuid = b.eventId.uuid :=
    congrArg (fun rank => (ofLex (ofLex (ofLex rank).2).2).2) h
  cases hA : a.eventId
  cases hB : b.eventId
  rw [hA, hB] at hUuid
  cases hUuid
  rfl

theorem compareLww_lt_iff : compareLww a b = .lt ↔
    a.occurredAt < b.occurredAt ∨ a.occurredAt = b.occurredAt ∧ a.eventId.uuid < b.eventId.uuid := by
  unfold compareLww
  split
  · rename_i hEq
    rw [compare_eq_iff_eq.mp hEq, compare_lt_iff_lt]
    simp
  · rename_i hNe
    rw [compare_lt_iff_lt]
    have hOther : a.occurredAt ≠ b.occurredAt := fun hSame => hNe (compare_eq_iff_eq.mpr hSame)
    simp [hOther]

theorem judge_winner : (judge a b).1 = if rank a < rank b then b else a := by
  have hRank := @rank_lt_iff b a
  unfold judge
  by_cases hDelete : a.op.isDelete = b.op.isDelete
  · by_cases hDone : a.op.isDoneStatus = b.op.isDoneStatus
    · have hLww : compareLww a b = .lt ↔ rank a < rank b := by
        rw [hRank, compareLww_lt_iff]
        simp [Beats, hDelete, hDone]
      by_cases hLt : rank a < rank b
      · simp [hDelete, hDone, hLww.mpr hLt, hLt]
      · simp [hDelete, hDone, mt hLww.mp hLt, hLt]
    · cases hA : a.op.isDoneStatus <;> cases hB : b.op.isDoneStatus <;> simp_all [Beats]
  · cases hA : a.op.isDelete <;> cases hB : b.op.isDelete <;> simp_all [Beats]

theorem winner_eq (hNames : a.eventId = b.eventId → a = b) : winner a b = if rank a < rank b then b else a := by
  have hWinner : (resolveConflict a b).winnerEventId = (if rank a < rank b then b else a).eventId :=
    congrArg ConflictRecord.eventId judge_winner
  unfold winner
  rw [hWinner]
  by_cases hLt : rank a < rank b
  · simp only [hLt, if_true]
    split
    · rename_i hId
      exact hNames hId.symm
    · rfl
  · simp [hLt]

namespace Grouping

def Named (records : List ConflictRecord) : Prop := ∀ a ∈ records, ∀ b ∈ records, a.eventId = b.eventId → a = b

theorem stands_greatest {grouping : Grouping} (h : Named grouping.records) :
    grouping.stands ∈ grouping.records ∧ ∀ record ∈ grouping.records, rank record ≤ rank grouping.stands := by
  induction grouping with
  | one record => simp [records, stands]
  | both first second ihFirst ihSecond =>
    obtain ⟨hFirst, hBelowFirst⟩ := ihFirst fun a hA b hB => h a (List.mem_append_left _ hA) b (List.mem_append_left _ hB)
    obtain ⟨hSecond, hBelowSecond⟩ :=
      ihSecond fun a hA b hB => h a (List.mem_append_right _ hA) b (List.mem_append_right _ hB)
    have hWinner := winner_eq (h _ (List.mem_append_left _ hFirst) _ (List.mem_append_right _ hSecond))
    rw [stands, hWinner]
    by_cases hLt : rank first.stands < rank second.stands
    · rw [if_pos hLt]
      refine ⟨List.mem_append_right _ hSecond, fun record hRecord => ?_⟩
      rcases List.mem_append.mp hRecord with hIn | hIn
      · exact (hBelowFirst record hIn).trans hLt.le
      · exact hBelowSecond record hIn
    · rw [if_neg hLt]
      refine ⟨List.mem_append_left _ hFirst, fun record hRecord => ?_⟩
      rcases List.mem_append.mp hRecord with hIn | hIn
      · exact hBelowFirst record hIn
      · exact (hBelowSecond record hIn).trans (not_lt.mp hLt)

/-- Replicas that saw the same events, in whatever order and grouping, agree on the one that
stands, and it beats every other one. -/
theorem conflicts_order_free {first second : Grouping} (hNames : Named first.records)
    (hSame : ∀ record, record ∈ first.records ↔ record ∈ second.records) :
    first.stands = second.stands ∧ first.stands ∈ first.records ∧
      ∀ record ∈ first.records, record = first.stands ∨ Beats first.stands record := by
  obtain ⟨hIn, hBelow⟩ := stands_greatest hNames
  obtain ⟨hIn', hBelow'⟩ := @stands_greatest second fun a hA b hB =>
    hNames a ((hSame a).mpr hA) b ((hSame b).mpr hB)
  have hRank : rank first.stands = rank second.stands :=
    le_antisymm (hBelow' _ ((hSame _).mp hIn)) (hBelow _ ((hSame _).mpr hIn'))
  refine ⟨hNames _ hIn _ ((hSame _).mpr hIn') (id_of_rank hRank), hIn, fun record hRecord => ?_⟩
  rcases (hBelow record hRecord).lt_or_eq with hLt | hEq
  · exact .inr (rank_lt_iff.mp hLt)
  · exact .inl (hNames _ hRecord _ hIn (id_of_rank hEq))

/-- An update, a completion of the same instant and an earlier deletion, met in two ways. -/
theorem conflicts_order_free_of_three :
    let update : ConflictRecord := ⟨⟨3⟩, 5, .update, .null⟩
    let completion : ConflictRecord := ⟨⟨2⟩, 5, .status .done, .null⟩
    let deletion : ConflictRecord := ⟨⟨1⟩, 4, .delete, .null⟩
    (both (one update) (both (one completion) (one deletion))).stands =
      (both (both (one deletion) (one update)) (one completion)).stands :=
  (conflicts_order_free (by simp [Named, records]) (by
    intro record
    simp only [records, List.mem_append, List.mem_singleton]
    tauto)).1

end Grouping
end Conflict
end Daruma
