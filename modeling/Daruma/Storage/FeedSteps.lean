import Daruma.Storage.ActivityFeed

/-! What an event does to the rows of the feed, once and again. -/
namespace Daruma

open List

namespace ActivityFeed

variable {db db' : Database} {feed : Feed} {row : Row} {envelope later : EventEnvelope} {log : List EventEnvelope}

variable {entry : Entry} {id taskId : TaskId} {event : Event} {f : Row → Row}

theorem taskEntry_ofTask {event : TaskEvent} (h : taskEntry event = some entry)
    (hSource : entry.project = .ofTask id) : entry.taskId = some id := by
  cases event <;> cases h <;> cases hSource <;> rfl

theorem entryOf_ofTask (h : entryOf event = some entry)
    (hSource : entry.project = .ofTask id) : entry.taskId = some id := by
  cases event with
  | task event => exact taskEntry_ofTask h hSource
  | comment event => cases event <;> cases h <;> cases hSource <;> rfl
  | relation event => cases event <;> cases h <;> cases hSource <;> rfl
  | project event => cases event <;> cases h <;> cases hSource
  | plan event =>
    cases event with
    | planUpdated planId patch =>
      cases h
      unfold planUpdatedEntry at hSource
      split at hSource <;> cases hSource
    | _ => cases h <;> cases hSource
  | run event => cases event <;> cases h <;> cases hSource
  | session event => cases event <;> cases h <;> cases hSource
  | claim event => cases event <;> cases h <;> cases hSource <;> rfl
  | audit event =>
    cases event with
    | ruleFired ruleId ruleKey decision trigger actor projectId planId taskId =>
      cases h
      cases projectId <;> cases taskId <;> cases hSource
      rfl
    | _ => cases h
  | _ => cases h

/-- A merge writes what the row says happened, and twice is once. -/
structure Merges (f : Row → Row) : Prop where
  taskId : ∀ row, (f row).taskId = row.taskId
  projectId : ∀ row, (f row).projectId = row.projectId
  eventId : ∀ row, (f row).eventId = row.eventId
  seq : ∀ row, (f row).seq = row.seq
  again : ∀ row, f (f row) = f row

theorem mergeOf_merges (h : mergeOf event = some (taskId, f)) : Merges f := by
  unfold mergeOf at h
  split at h
  all_goals first
    | (cases h; exact ⟨fun _ => rfl, fun _ => rfl, fun _ => rfl, fun _ => rfl, fun _ => rfl⟩)
    | cases h

theorem mergeOf_entry (h : mergeOf event = some (taskId, f)) :
    ∃ entry, entryOf event = some entry ∧ entry.project = .ofTask taskId := by
  unfold mergeOf at h
  split at h
  all_goals first
    | (cases h; exact ⟨_, rfl, rfl⟩)
    | cases h

structure Row.Same (row other : Row) : Prop where
  taskId : other.taskId = row.taskId
  projectId : other.projectId = row.projectId
  eventId : other.eventId = row.eventId
  seq : other.seq = row.seq

theorem Row.Same.rfl' : row.Same row := ⟨rfl, rfl, rfl, rfl⟩

def updating (taskId : TaskId) (seq : Nat) (f : Row → Row) (row : Row) : Row :=
  if row.isAt taskId seq then f row else row

theorem updating_same {seq : Nat} (h : Merges f) : row.Same (updating taskId seq f row) := by
  unfold updating
  split
  · exact ⟨h.taskId row, h.projectId row, h.eventId row, h.seq row⟩
  · exact .rfl'

theorem Row.Same.isAt {other : Row} (h : row.Same other) (taskId : TaskId) (seq : Nat) :
    other.isAt taskId seq = row.isAt taskId seq := by
  unfold Row.isAt
  rw [h.taskId, h.seq]

def Lands (feed : Feed) (envelope : EventEnvelope) (taskId : TaskId) : Prop :=
  ∃ row ∈ feed, row.isAt taskId (envelope.seq - 1) = true

inductive Applied (db : Database) (feed : Feed) (envelope : EventEnvelope) : Feed → Prop where
  | merges (taskId : TaskId) (f : Row → Row) (hMerge : mergeOf envelope.payload = some (taskId, f)) (hLands : Lands feed envelope taskId) :
      Applied db feed envelope (feed.map (updating taskId (envelope.seq - 1) f))
  | silent (hEntry : entryOf envelope.payload = none) : Applied db feed envelope feed
  | known (hNot : ∀ taskId f, mergeOf envelope.payload = some (taskId, f) → ¬Lands feed envelope taskId) (row : Row)
      (hRow : row ∈ feed) (hKnown : row.eventId = envelope.id) : Applied db feed envelope feed
  | adds (hNot : ∀ taskId f, mergeOf envelope.payload = some (taskId, f) → ¬Lands feed envelope taskId) (entry : Entry)
      (hEntry : entryOf envelope.payload = some entry) (hNew : ∀ row ∈ feed, row.eventId ≠ envelope.id) :
      Applied db feed envelope (feed ++ [entry.row (entry.project.resolve db feed) envelope])

theorem applied (db : Database) (feed : Feed) (envelope : EventEnvelope) :
    Applied db feed envelope (applyEvent db feed envelope) := by
  have hInsert : (∀ taskId f, mergeOf envelope.payload = some (taskId, f) → ¬Lands feed envelope taskId) →
      merged feed envelope = none → Applied db feed envelope (applyEvent db feed envelope) := by
    intro hNot hNone
    unfold applyEvent
    rw [hNone]
    dsimp only
    cases hEntry : entryOf envelope.payload with
    | none => exact .silent hEntry
    | some entry =>
      dsimp only
      unfold insertRow
      split
      · rename_i hAny
        obtain ⟨row, hRow, hKnown⟩ := any_eq_true.mp hAny
        exact .known hNot row hRow (of_decide_eq_true hKnown)
      · rename_i hAny
        refine .adds hNot entry hEntry fun row hRow hKnown => hAny ?_
        exact any_eq_true.mpr ⟨row, hRow, decide_eq_true hKnown⟩
  cases hMerge : mergeOf envelope.payload with
  | none =>
    refine hInsert ?_ ?_
    · intro taskId f hIs
      cases hMerge.symm.trans hIs
    · unfold merged
      rw [hMerge]
      rfl
  | some merge =>
    obtain ⟨taskId, f⟩ := merge
    by_cases hAny : (feed.any fun row => row.isAt taskId (envelope.seq - 1)) = true
    · have hMerged : merged feed envelope = some (feed.map (updating taskId (envelope.seq - 1) f)) := by
        unfold merged updateAtSeq
        rw [hMerge]
        dsimp only [Option.bind_some]
        rw [if_pos hAny]
        rfl
      have hApplied : applyEvent db feed envelope = feed.map (updating taskId (envelope.seq - 1) f) := by
        unfold applyEvent
        rw [hMerged]
      rw [hApplied]
      exact .merges taskId f hMerge (any_eq_true.mp hAny)
    · refine hInsert ?_ ?_
      · intro other g hIs hLands
        cases hMerge.symm.trans hIs
        exact hAny (any_eq_true.mpr hLands)
      · unfold merged updateAtSeq
        rw [hMerge]
        dsimp only [Option.bind_some]
        rw [if_neg hAny]

theorem applyEvent_keeps (h : row ∈ feed) : ∃ other ∈ applyEvent db feed envelope, row.Same other := by
  generalize hAfter : applyEvent db feed envelope = after
  have hApplied := applied db feed envelope
  rw [hAfter] at hApplied
  cases hApplied with
  | merges taskId f hMerge => exact ⟨_, mem_map_of_mem h, updating_same (mergeOf_merges hMerge)⟩
  | silent | known => exact ⟨row, h, .rfl'⟩
  | adds => exact ⟨row, mem_append_left _ h, .rfl'⟩

theorem of_mem_applyEvent (h : row ∈ applyEvent db feed envelope) :
    (∃ old ∈ feed, old.Same row ∧ (old.seq ≠ envelope.seq - 1 → row = old)) ∨
      ∃ entry, entryOf envelope.payload = some entry ∧ row = entry.row (entry.project.resolve db feed) envelope := by
  generalize hAfter : applyEvent db feed envelope = after at h
  have hApplied := applied db feed envelope
  rw [hAfter] at hApplied
  cases hApplied with
  | merges taskId f hMerge =>
    obtain ⟨old, hOld, rfl⟩ := mem_map.mp h
    refine .inl ⟨old, hOld, updating_same (mergeOf_merges hMerge), fun hOther => ?_⟩
    have hNotAt : ¬old.isAt taskId (envelope.seq - 1) = true := by
      unfold Row.isAt
      simp [hOther]
    exact if_neg hNotAt
  | silent | known => exact .inl ⟨row, h, .rfl', fun _ => rfl⟩
  | adds hNot entry hEntry =>
    rcases mem_append.mp h with hOld | hAdded
    · exact .inl ⟨row, hOld, .rfl', fun _ => rfl⟩
    · exact .inr ⟨entry, hEntry, mem_singleton.mp hAdded⟩

/-- The feed has taken an event: what it merges is merged, and what it adds is there. -/
structure Takes (feed : Feed) (envelope : EventEnvelope) : Prop where
  merged : ∀ taskId f, mergeOf envelope.payload = some (taskId, f) → ∀ row ∈ feed, row.isAt taskId (envelope.seq - 1) = true →
    f row = row
  present : ∀ entry, entryOf envelope.payload = some entry →
    (∃ taskId f, mergeOf envelope.payload = some (taskId, f) ∧ Lands feed envelope taskId) ∨
      ∃ row ∈ feed, row.eventId = envelope.id

theorem Takes.again (h : Takes feed envelope) (db : Database) : applyEvent db feed envelope = feed := by
  generalize hAfter : applyEvent db feed envelope = after
  have hApplied := applied db feed envelope
  rw [hAfter] at hApplied
  cases hApplied with
  | merges taskId f hMerge =>
    refine (map_congr_left fun row hRow => ?_).trans (map_id _)
    unfold updating
    split
    · rename_i hAt
      exact h.merged taskId f hMerge row hRow hAt
    · rfl
  | silent | known => rfl
  | adds hNot entry hEntry hNew =>
    rcases h.present entry hEntry with ⟨taskId, f, hMerge, hLands⟩ | ⟨row, hRow, hKnown⟩
    · exact absurd hLands (hNot taskId f hMerge)
    · exact absurd hKnown (hNew row hRow)

theorem Lands.applied (h : Lands feed envelope taskId) : Lands (applyEvent db feed later) envelope taskId := by
  obtain ⟨row, hRow, hAt⟩ := h
  obtain ⟨other, hOther, hSame⟩ := @applyEvent_keeps db feed row later hRow
  exact ⟨other, hOther, (hSame.isAt _ _).trans hAt⟩

theorem takes_applied (hPos : 0 < envelope.seq) : Takes (applyEvent db feed envelope) envelope := by
  generalize hAfter : applyEvent db feed envelope = after
  have hApplied := applied db feed envelope
  rw [hAfter] at hApplied
  cases hApplied with
  | merges taskId f hMerge hLands =>
    have hMerges := mergeOf_merges hMerge
    constructor
    · intro other g hIs row hRow hAt
      cases hMerge.symm.trans hIs
      obtain ⟨old, _, rfl⟩ := mem_map.mp hRow
      rw [(updating_same hMerges).isAt] at hAt
      unfold updating
      rw [if_pos hAt]
      exact hMerges.again old
    · intro entry _
      obtain ⟨row, hRow, hAt⟩ := hLands
      refine .inl ⟨taskId, f, hMerge, _, mem_map_of_mem hRow, ?_⟩
      rw [(updating_same hMerges).isAt]
      exact hAt
  | silent hEntry =>
    constructor
    · intro taskId f hMerge
      obtain ⟨entry, hSome, _⟩ := mergeOf_entry hMerge
      cases hEntry.symm.trans hSome
    · intro entry hSome
      cases hEntry.symm.trans hSome
  | known hNot row hRow hKnown =>
    exact ⟨fun taskId f hMerge other hOther hAt => absurd ⟨other, hOther, hAt⟩ (hNot taskId f hMerge),
      fun _ _ => .inr ⟨row, hRow, hKnown⟩⟩
  | adds hNot entry hEntry =>
    constructor
    · intro taskId f hMerge row hRow hAt
      rcases mem_append.mp hRow with hOld | hAdded
      · exact absurd ⟨row, hOld, hAt⟩ (hNot taskId f hMerge)
      · cases mem_singleton.mp hAdded
        have hSeq : envelope.seq = envelope.seq - 1 := of_decide_eq_true (Bool.and_eq_true_iff.mp hAt).2
        omega
    · intro other _
      exact .inr ⟨_, mem_append_right _ (mem_singleton_self _), rfl⟩

theorem Takes.stays (h : Takes feed envelope) (hPos : 0 < envelope.seq) (hLater : envelope.seq < later.seq) :
    Takes (applyEvent db feed later) envelope := by
  constructor
  · intro taskId f hMerge row hRow hAt
    have hSeq : row.seq = envelope.seq - 1 := of_decide_eq_true (Bool.and_eq_true_iff.mp hAt).2
    rcases of_mem_applyEvent hRow with ⟨old, hOld, hSame, hAs⟩ | ⟨entry, _, rfl⟩
    · have hIs : row = old := hAs (by rw [← hSame.seq]; omega)
      rw [hIs] at hAt ⊢
      exact h.merged taskId f hMerge old hOld hAt
    · have hRowSeq : later.seq = envelope.seq - 1 := hSeq
      omega
  · intro entry hEntry
    rcases h.present entry hEntry with ⟨taskId, f, hMerge, hLands⟩ | ⟨row, hRow, hKnown⟩
    · exact .inl ⟨taskId, f, hMerge, hLands.applied⟩
    · obtain ⟨other, hOther, hSame⟩ := @applyEvent_keeps db feed row later hRow
      exact .inr ⟨other, hOther, hSame.eventId.trans hKnown⟩

end ActivityFeed
end Daruma
