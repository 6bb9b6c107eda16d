import Daruma.Storage.FeedSteps

/-! The repair of a feed: what was applied before the stop is applied again to no effect,
the rest is applied with the tables that the stop left. -/
namespace Daruma

open List

/-- A log as the store keeps it: in the order of its numbers, which are positive, and
with an id for each event. -/
structure StoredLog (log : List EventEnvelope) : Prop where
  ascending : log.Pairwise fun first second => first.seq < second.seq
  positive : ∀ envelope ∈ log, 0 < envelope.seq
  ids : log.Pairwise fun first second => first.id ≠ second.id

namespace ActivityFeed

variable {db : Database} {feed : Feed} {log earlier rest : List EventEnvelope} {envelope : EventEnvelope}
  {tables tables' : Nat → Database} {n : Nat}

/-- Apply events one after the other, each with the tables that it finds. -/
def feedFrom (tables : Nat → Database) : Nat → Feed → List EventEnvelope → Feed
  | _, feed, [] => feed
  | n, feed, envelope :: rest => feedFrom tables (n + 1) (applyEvent (tables n) feed envelope) rest

theorem feedFrom_append : feedFrom tables n feed (earlier ++ rest) =
    feedFrom tables (n + earlier.length) (feedFrom tables n feed earlier) rest := by
  induction earlier generalizing n feed with
  | nil => rfl
  | cons envelope earlier ih =>
    rw [cons_append, feedFrom, ih, feedFrom, length_cons]
    congr 1
    omega

theorem feedFrom_const : feedFrom (fun _ => db) n feed rest = rest.foldl (applyEvent db) feed := by
  induction rest generalizing n feed with
  | nil => rfl
  | cons envelope rest ih => exact ih

structure RowsOf (log : List EventEnvelope) (feed : Feed) : Prop where
  event : ∀ row ∈ feed, ∃ envelope ∈ log, row.eventId = envelope.id ∧ row.seq = envelope.seq ∧
    ∃ entry, entryOf envelope.payload = some entry ∧ row.taskId = entry.taskId
  ids : feed.Pairwise fun first second => first.eventId ≠ second.eventId

theorem RowsOf.nil : RowsOf log [] := ⟨fun _ h => absurd h not_mem_nil, .nil⟩

theorem RowsOf.apply (h : RowsOf earlier feed) : RowsOf (earlier ++ [envelope]) (applyEvent db feed envelope) := by
  constructor
  · intro row hRow
    rcases of_mem_applyEvent hRow with ⟨old, hOld, hSame, _⟩ | ⟨entry, hEntry, rfl⟩
    · obtain ⟨event, hEvent, hId, hSeq, entry, hEntry, hTask⟩ := h.event old hOld
      exact ⟨event, mem_append_left _ hEvent, hSame.eventId.trans hId, hSame.seq.trans hSeq, entry, hEntry,
        hSame.taskId.trans hTask⟩
    · exact ⟨envelope, mem_append_right _ (mem_singleton_self _), rfl, rfl, entry, hEntry, rfl⟩
  · generalize hAfter : applyEvent db feed envelope = after
    have hApplied := applied db feed envelope
    rw [hAfter] at hApplied
    cases hApplied with
    | merges taskId f hMerge =>
      refine pairwise_map.mpr (h.ids.imp fun hNe => ?_)
      rw [(updating_same (mergeOf_merges hMerge)).eventId, (updating_same (mergeOf_merges hMerge)).eventId]
      exact hNe
    | silent | known => exact h.ids
    | adds hNot entry hEntry hNew =>
      refine pairwise_append.mpr ⟨h.ids, pairwise_singleton _ _, fun row hRow other hOther => ?_⟩
      rw [mem_singleton.mp hOther]
      exact hNew row hRow

theorem rowsOf_feedFrom (h : RowsOf earlier feed) : RowsOf (earlier ++ rest) (feedFrom tables n feed rest) := by
  induction rest generalizing earlier feed n with
  | nil =>
    rw [append_nil]
    exact h
  | cons envelope rest ih =>
    rw [← singleton_append, ← append_assoc]
    exact ih h.apply

theorem takes_feedFrom (hStored : StoredLog (earlier ++ rest)) (h : ∀ envelope ∈ earlier, Takes feed envelope) :
    ∀ envelope ∈ earlier ++ rest, Takes (feedFrom tables n feed rest) envelope := by
  induction rest generalizing earlier feed n with
  | nil =>
    rw [append_nil]
    exact h
  | cons next rest ih =>
    have hSplit : earlier ++ next :: rest = (earlier ++ [next]) ++ rest := by simp
    rw [hSplit] at hStored ⊢
    refine ih hStored fun envelope hMem => ?_
    have hIn : ∀ other ∈ earlier ++ [next], other ∈ (earlier ++ [next]) ++ rest := fun _ => mem_append_left _
    rcases mem_append.mp hMem with hEarlier | hNext
    · have hBefore : envelope.seq < next.seq :=
        (pairwise_append.mp (pairwise_append.mp hStored.ascending).1).2.2 envelope hEarlier next
          (mem_singleton_self _)
      exact (h envelope hEarlier).stays (hStored.positive envelope (hIn envelope hMem)) hBefore
    · cases mem_singleton.mp hNext
      exact takes_applied (hStored.positive next (hIn next hMem))

theorem foldl_max_le {numbers : List Nat} {least bound : Nat} (hLeast : least ≤ bound) (h : ∀ k ∈ numbers, k ≤ bound) :
    numbers.foldl max least ≤ bound := by
  induction numbers generalizing least with
  | nil => exact hLeast
  | cons first numbers ih =>
    obtain ⟨hFirst, hRest⟩ := forall_mem_cons.mp h
    exact ih (max_le hLeast hFirst) hRest

theorem filter_after_page {since limit : Nat} {page : List EventEnvelope} (hAscending : log.Pairwise fun a b => a.seq < b.seq)
    (hPage : loadSince log since limit = page) (hSome : page ≠ []) :
    (log.filter fun e => since < e.seq) = page ++ log.filter fun e => (page.getLast hSome).seq < e.seq := by
  obtain ⟨tail, hCut⟩ : ∃ tail, (log.filter fun e => since < e.seq) = page ++ tail := by
    refine ⟨(log.filter fun e => since < e.seq).drop limit, ?_⟩
    rw [← hPage]
    exact (take_append_drop _ _).symm
  have hSorted : (page ++ tail).Pairwise fun a b => a.seq < b.seq := by
    rw [← hCut]
    exact hAscending.filter _
  obtain ⟨hInPage, hBehind, hAcross⟩ := pairwise_append.mp hSorted
  have hLastIn : page.getLast hSome ∈ page := getLast_mem hSome
  have hSince : since < (page.getLast hSome).seq := by
    have hIn : page.getLast hSome ∈ log.filter fun e => since < e.seq := by
      rw [hCut]
      exact mem_append_left _ hLastIn
    exact of_decide_eq_true (mem_filter.mp hIn).2
  have hLast : ∀ e ∈ page, e.seq ≤ (page.getLast hSome).seq := by
    intro e hMem
    obtain ⟨front, hFront⟩ : ∃ front, page = front ++ [page.getLast hSome] :=
      ⟨_, (dropLast_append_getLast hSome).symm⟩
    rw [hFront] at hMem hInPage
    rcases mem_append.mp hMem with hFirst | hIs
    · exact Nat.le_of_lt ((pairwise_append.mp hInPage).2.2 e hFirst _ (mem_singleton_self _))
    · rw [mem_singleton.mp hIs]
  have hTwice : (log.filter fun e => (page.getLast hSome).seq < e.seq) =
      (log.filter fun e => since < e.seq).filter fun e => (page.getLast hSome).seq < e.seq := by
    rw [filter_filter]
    refine filter_congr fun e _ => ?_
    by_cases hAfter : (page.getLast hSome).seq < e.seq
    · simp [hAfter, lt_trans hSince hAfter]
    · simp [hAfter]
  have hNone : (page.filter fun e => (page.getLast hSome).seq < e.seq) = [] := by
    refine filter_eq_nil_iff.mpr fun e hMem => ?_
    simpa using hLast e hMem
  have hAll : (tail.filter fun e => (page.getLast hSome).seq < e.seq) = tail := by
    refine filter_eq_self.mpr fun e hMem => ?_
    exact decide_eq_true (hAcross _ hLastIn e hMem)
  rw [hTwice, hCut, filter_append, hNone, hAll, nil_append]

theorem backfillPages_eq {pages last : Nat} (hAscending : log.Pairwise fun a b => a.seq < b.seq)
    (hPages : (log.filter fun e => last < e.seq).length ≤ pages) :
    backfillPages db log pages last feed = (log.filter fun e => last < e.seq).foldl (applyEvent db) feed := by
  induction pages generalizing last feed with
  | zero =>
    rw [eq_nil_of_length_eq_zero (Nat.le_zero.mp hPages)]
    rfl
  | succ pages ih =>
    unfold backfillPages
    cases hPage : loadSince log last backfillPageSize with
    | nil =>
      have hNone : (log.filter fun e => last < e.seq) = [] := by
        rcases take_eq_nil_iff.mp hPage with hZero | hNone
        · cases hZero
        · exact hNone
      rw [hNone]
      rfl
    | cons first rest =>
      have hCut := filter_after_page hAscending hPage (cons_ne_nil _ _)
      dsimp only
      rw [ih, hCut, foldl_append]
      rw [hCut, length_append, length_cons] at hPages
      omega

/-- A stop after some events, and the next start: what follows is applied with the
tables that the stop left. -/
theorem backfill_eq (hStored : StoredLog (earlier ++ rest)) :
    backfillFromEvents db (earlier ++ rest) (feedFrom tables 0 [] earlier) =
      rest.foldl (applyEvent db) (feedFrom tables 0 [] earlier) := by
  have hRows : RowsOf ([] ++ earlier) (feedFrom tables 0 [] earlier) := rowsOf_feedFrom RowsOf.nil
  have hTakes : ∀ envelope ∈ [] ++ earlier, Takes (feedFrom tables 0 [] earlier) envelope := by
    refine takes_feedFrom ⟨?_, ?_, ?_⟩ fun _ h => by cases h
    · exact (pairwise_append.mp hStored.ascending).1
    · exact fun envelope hMem => hStored.positive envelope (mem_append_left _ hMem)
    · exact (pairwise_append.mp hStored.ids).1
  rw [nil_append] at hRows hTakes
  have hAgain : ∀ events : List EventEnvelope, (∀ envelope ∈ events, envelope ∈ earlier) →
      events.foldl (applyEvent db) (feedFrom tables 0 [] earlier) = feedFrom tables 0 [] earlier := by
    intro events hAll
    induction events with
    | nil => rfl
    | cons envelope events ih =>
      obtain ⟨hFirst, hRest⟩ := forall_mem_cons.mp hAll
      rw [foldl_cons, (hTakes envelope hFirst).again]
      exact ih hRest
  have hAfter : (rest.filter fun e => lastBackfilledSeq (feedFrom tables 0 [] earlier) < e.seq) = rest := by
    refine filter_eq_self.mpr fun e hMem => decide_eq_true ?_
    have hPos : 0 < e.seq := hStored.positive e (mem_append_right _ hMem)
    have hBound : lastBackfilledSeq (feedFrom tables 0 [] earlier) ≤ e.seq - 1 := by
      refine foldl_max_le (Nat.zero_le _) fun k hk => ?_
      obtain ⟨row, hRow, rfl⟩ := mem_map.mp hk
      obtain ⟨event, hEvent, _, hSeq, _⟩ := hRows.event row hRow
      have hBefore : event.seq < e.seq := (pairwise_append.mp hStored.ascending).2.2 event hEvent e hMem
      omega
    omega
  unfold backfillFromEvents
  rw [backfillPages_eq hStored.ascending (length_filter_le _ _), filter_append, foldl_append, hAfter,
    hAgain _ fun envelope hMem => (mem_filter.mp hMem).1]

/-- Two states of the tables say the same of the project of an event. -/
def Agree (db db' : Database) (envelope : EventEnvelope) : Prop :=
  ∀ entry, entryOf envelope.payload = some entry → entry.project.lookup db = entry.project.lookup db'

variable {db' : Database}

theorem Agree.resolve {entry : Entry} (h : entry.project.lookup db = entry.project.lookup db') :
    entry.project.resolve db feed = entry.project.resolve db' feed := by
  unfold ProjectSource.resolve
  split
  · rfl
  · exact h

theorem Agree.applies (h : Agree db db' envelope) : applyEvent db feed envelope = applyEvent db' feed envelope := by
  unfold applyEvent
  cases merged feed envelope with
  | some feed => rfl
  | none =>
    dsimp only
    cases hEntry : entryOf envelope.payload with
    | none => rfl
    | some entry =>
      dsimp only
      rw [Agree.resolve (h entry hEntry)]

theorem feedFrom_keeps {row : Row} (h : row ∈ feed) : ∃ other ∈ feedFrom tables n feed rest, row.Same other := by
  induction rest generalizing feed row n with
  | nil => exact ⟨row, h, .rfl'⟩
  | cons envelope rest ih =>
    obtain ⟨next, hNext, hSame⟩ := @applyEvent_keeps (tables n) feed row envelope h
    obtain ⟨other, hOther, hThen⟩ := ih (n := n + 1) hNext
    exact ⟨other, hOther, hThen.taskId.trans hSame.taskId, hThen.projectId.trans hSame.projectId,
      hThen.eventId.trans hSame.eventId, hThen.seq.trans hSame.seq⟩

theorem RowsOf.unique (h : RowsOf log feed) {row other : Row} (hRow : row ∈ feed) (hOther : other ∈ feed)
    (hSame : row.eventId = other.eventId) : row = other := by
  have hNodup : (feed.map Row.eventId).Nodup := pairwise_map.mpr h.ids
  exact inj_on_of_nodup_map hNodup hRow hOther hSame

theorem looked_up {entry : Entry} (hRows : RowsOf earlier feed) (hNew : ∀ other ∈ earlier, other.id ≠ envelope.id)
    (hEntry : entryOf envelope.payload = some entry) (hTables : ∀ id, entry.project ≠ .ofTask id) :
    ∃ row ∈ applyEvent db feed envelope, row.eventId = envelope.id ∧ row.projectId = entry.project.lookup db := by
  generalize hAfter : applyEvent db feed envelope = after
  have hApplied := applied db feed envelope
  rw [hAfter] at hApplied
  cases hApplied with
  | merges taskId f hMerge =>
    obtain ⟨other, hOther, hSource⟩ := mergeOf_entry hMerge
    cases hEntry.symm.trans hOther
    exact absurd hSource (hTables taskId)
  | silent hNone => cases hNone.symm.trans hEntry
  | known hNot row hRow hKnown =>
    obtain ⟨other, hOther, hId, _⟩ := hRows.event row hRow
    exact absurd (hId.symm.trans hKnown) (hNew other hOther)
  | adds hNot other hOther =>
    cases hEntry.symm.trans hOther
    refine ⟨_, mem_append_right _ (mem_singleton_self _), rfl, ?_⟩
    change entry.project.resolve db feed = _
    unfold ProjectSource.resolve
    split
    · rename_i id hSource
      exact absurd hSource (hTables id)
    · rfl

/-- Two ways of applying the rest leave the same rows exactly when the tables say the
same of the project of each event of it. -/
theorem feedFrom_eq_iff (hRows : RowsOf earlier feed) (hIds : (earlier ++ rest).Pairwise fun a b => a.id ≠ b.id) :
    feedFrom tables n feed rest = feedFrom tables' n feed rest ↔
      ∀ k envelope, rest[k]? = some envelope → Agree (tables (n + k)) (tables' (n + k)) envelope := by
  induction rest generalizing earlier feed n with
  | nil => exact iff_of_true rfl fun k envelope h => by cases h
  | cons next rest ih =>
    have hSplit : earlier ++ next :: rest = (earlier ++ [next]) ++ rest := by simp
    rw [hSplit] at hIds
    have hNew : ∀ other ∈ earlier, other.id ≠ next.id := fun other hOther =>
      (pairwise_append.mp (pairwise_append.mp hIds).1).2.2 other hOther next (mem_singleton_self _)
    have hHead : feedFrom tables n feed (next :: rest) = feedFrom tables' n feed (next :: rest) →
        Agree (tables n) (tables' n) next := by
      intro hSame entry hEntry
      cases hSource : entry.project with
      | ofTask id => rfl
      | _ =>
        have hTables : ∀ id, entry.project ≠ .ofTask id := by
          intro id hIs
          cases hSource.symm.trans hIs
        obtain ⟨row, hRow, hId, hProject⟩ := @looked_up (tables n) _ _ _ entry hRows hNew hEntry hTables
        obtain ⟨row', hRow', hId', hProject'⟩ := @looked_up (tables' n) _ _ _ entry hRows hNew hEntry hTables
        obtain ⟨last, hLast, hThen⟩ := @feedFrom_keeps _ rest tables (n + 1) row hRow
        obtain ⟨last', hLast', hThen'⟩ := @feedFrom_keeps _ rest tables' (n + 1) row' hRow'
        have hIn : last' ∈ feedFrom tables (n + 1) (applyEvent (tables n) feed next) rest := by
          rw [feedFrom, feedFrom] at hSame
          rw [hSame]
          exact hLast'
        have hOne : last = last' := (rowsOf_feedFrom hRows.apply).unique hLast hIn
          ((hThen.eventId.trans hId).trans (hThen'.eventId.trans hId').symm)
        rw [← hSource, ← hProject, ← hProject', ← hThen.projectId, ← hThen'.projectId, hOne]
    constructor
    · intro hSame k envelope hk
      have hFirst := hHead hSame
      cases k with
      | zero =>
        cases hk
        exact hFirst
      | succ k =>
        rw [feedFrom, feedFrom, ← hFirst.applies] at hSame
        have hNext := (ih hRows.apply hIds).mp hSame k envelope hk
        have hSum : n + (k + 1) = n + 1 + k := by omega
        rw [hSum]
        exact hNext
    · intro hAgree
      have hFirst : Agree (tables n) (tables' n) next := hAgree 0 next rfl
      rw [feedFrom, feedFrom, ← hFirst.applies]
      refine (ih hRows.apply hIds).mpr fun k envelope hk => ?_
      have hSum : n + 1 + k = n + (k + 1) := by omega
      rw [hSum]
      exact hAgree (k + 1) envelope hk

end ActivityFeed
end Daruma
