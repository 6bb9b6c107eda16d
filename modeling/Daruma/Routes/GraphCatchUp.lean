import Daruma.Routes.WorkspaceGraph

/-! What a run leaves of the index: where no step passes over an event and none repeats
one, a catch-up that has finished leaves the fold of the log. -/
namespace Daruma

open List

variable {log : EventLog}

theorem EventLog.eq_of_seq {row other : EventEnvelope} (hRow : row ∈ log.rows) (hOther : other ∈ log.rows)
    (hSeq : row.seq = other.seq) : row = other := by
  by_contra hNe
  obtain ⟨i, hi, rfl⟩ := getElem_of_mem hRow
  obtain ⟨j, hj, rfl⟩ := getElem_of_mem hOther
  have hSorted := pairwise_iff_getElem.mp log.sorted
  rcases Nat.lt_trichotomy i j with hLt | hEq | hGt
  · exact absurd hSeq (Nat.ne_of_lt (hSorted i j hi hj hLt))
  · subst hEq
    exact hNe rfl
  · exact absurd hSeq.symm (Nat.ne_of_lt (hSorted j i hj hi hGt))

theorem position_le_of_resumed {cursor : Option GraphCursor} (h : rollbackReason cursor log = none) :
    (cursor.map GraphCursor.seq).getD 0 ≤ log.latestSeq := by
  cases cursor with
  | none => exact Nat.zero_le _
  | some cursor =>
    unfold rollbackReason at h
    dsimp only at h
    change cursor.seq ≤ log.latestSeq
    by_cases hZero : cursor.seq = 0
    · rw [hZero]
      exact Nat.zero_le _
    · rw [if_neg hZero] at h
      by_contra hAhead
      rw [if_pos (Nat.lt_of_not_le hAhead)] at h
      cases h

namespace GraphWorld

variable {Index : Type} {apply : Index → EventEnvelope → Index} {empty : Index} {world after : GraphWorld Index}
  {envelope : EventEnvelope} {action : GraphAction Index}

def Up (self : GraphWorld Index) : Prop := self.caughtUp = true ∨ self.catchUp.isSome = true

/-- What holds throughout a steady run. -/
structure Kept (apply : Index → EventEnvelope → Index) (empty : Index) (world : GraphWorld Index) : Prop where
  fold : world.graph.index = world.indexed.foldl apply empty
  sorted : world.indexed.Pairwise fun a b => a.seq < b.seq
  upTo : ∀ event ∈ world.indexed, event.seq ≤ world.graph.position
  anchored : world.Up → world.Anchored ∧ world.graph.position ≤ world.log.latestSeq
  live : world.inbox.isSome = true → world.Up
  waiting : world.caughtUp = true → ∀ row ∈ world.log.rows, world.graph.position < row.seq →
    row ∈ world.unpublished ∨ row ∈ world.pending

theorem Kept.init : Kept apply empty (init empty) where
  fold := rfl
  sorted := .nil
  upTo := fun _ hMem => absurd hMem not_mem_nil
  anchored := by
    rintro (hIs | hIs) <;> cases hIs
  live := by
    intro hIs
    cases hIs
  waiting := by
    intro hIs
    cases hIs

theorem Kept.take_next (h : Kept apply empty world) (hUp : world.Up) (hNext : world.Next envelope)
    {inbox : Option (List EventEnvelope)} {catchUp : Option CatchUp}
    (hStays : ({ world with inbox := inbox, catchUp := catchUp } : GraphWorld Index).Up)
    (hWaiting : world.caughtUp = true → ∀ row ∈ world.log.rows, envelope.seq < row.seq →
      row ∈ world.unpublished ∨ row ∈ inbox.getD []) :
    Kept apply empty (take apply { world with inbox := inbox, catchUp := catchUp } envelope none) := by
  obtain ⟨hAnchored, _⟩ := h.anchored hUp
  have hPosition : (take apply { world with inbox := inbox, catchUp := catchUp } envelope none).graph.position =
      envelope.seq := rfl
  refine ⟨?_, ?_, ?_, fun _ => ⟨⟨?_, ?_⟩, ?_⟩, fun _ => hStays, hWaiting⟩
  · change apply world.graph.index envelope = (world.indexed ++ [envelope]).foldl apply empty
    rw [foldl_append, ← h.fold]
    rfl
  · refine pairwise_append.mpr ⟨h.sorted, pairwise_singleton _ _, fun event hEvent other hOther => ?_⟩
    cases mem_singleton.mp hOther
    exact Nat.lt_of_le_of_lt (h.upTo event hEvent) hNext.later
  · intro event hEvent
    rw [hPosition]
    rcases mem_append.mp hEvent with hOld | hNew
    · exact Nat.le_of_lt (Nat.lt_of_le_of_lt (h.upTo event hOld) hNext.later)
    · cases mem_singleton.mp hNew
      exact Nat.le_refl _
  · intro row hRow hSeq
    rw [hPosition] at hSeq
    rcases hNext.first row hRow with hBefore | hAfter
    · exact mem_append_left _ (hAnchored.indexed row hRow hBefore)
    · have hSame := EventLog.eq_of_seq hRow hNext.stored (Nat.le_antisymm hSeq hAfter)
      exact mem_append_right _ (mem_singleton.mpr hSame)
  · intro event hEvent
    rcases mem_append.mp hEvent with hOld | hNew
    · exact hAnchored.known event hOld
    · cases mem_singleton.mp hNew
      exact .inl hNext.stored
  · rw [hPosition]
    exact world.log.within envelope hNext.stored

theorem Kept.same (h : Kept apply empty world) (hGraph : after.graph = world.graph) (hIndexed : after.indexed = world.indexed)
    (hUp : after.Up → world.Up ∧ after.log = world.log) (hLive : after.inbox.isSome = true → after.Up)
    (hWaiting : after.caughtUp = true → ∀ row ∈ world.log.rows, world.graph.position < row.seq →
      row ∈ after.unpublished ∨ row ∈ after.pending) : Kept apply empty after := by
  refine ⟨?_, ?_, ?_, fun hAfter => ?_, hLive, fun hCaught => ?_⟩
  · rw [hGraph, hIndexed]
    exact h.fold
  · rw [hIndexed]
    exact h.sorted
  · rw [hGraph, hIndexed]
    exact h.upTo
  · obtain ⟨hBefore, hLog⟩ := hUp hAfter
    obtain ⟨hAnchored, hBehind⟩ := h.anchored hBefore
    rw [hGraph, hLog]
    refine ⟨⟨?_, ?_⟩, hBehind⟩
    · rw [hLog, hGraph, hIndexed]
      exact hAnchored.indexed
    · rw [hLog, hIndexed]
      exact hAnchored.known
  · rw [hGraph, (hUp (.inl hCaught)).2]
    exact hWaiting hCaught

theorem mem_or_eraseIdx {α : Type} {items : List α} {place : Nat} {found item : α} (hFound : items[place]? = some found)
    (hMem : item ∈ items) : item = found ∨ item ∈ items.eraseIdx place := by
  obtain ⟨i, hi⟩ := mem_iff_getElem?.mp hMem
  by_cases hPlace : i = place
  · subst hPlace
    exact .inl (Option.some.inj (hi.symm.trans hFound))
  · exact .inr (mem_eraseIdx_iff_getElem?.mpr ⟨i, hPlace, hi⟩)

theorem Kept.append (h : Kept apply empty world) (envelope : EventEnvelope) : Kept apply empty { world with
      log := world.log.append envelope
      unpublished := world.unpublished ++ [world.log.stored envelope] } := by
  refine ⟨h.fold, h.sorted, h.upTo, fun hUp => ?_, h.live, fun hCaught row hRow hLater => ?_⟩
  · obtain ⟨hAnchored, hBehind⟩ := h.anchored hUp
    refine ⟨⟨fun row hRow hSeq => ?_, fun event hEvent => ?_⟩, Nat.le_succ_of_le hBehind⟩
    · rcases mem_append.mp hRow with hOld | hNew
      · exact hAnchored.indexed row hOld hSeq
      · cases mem_singleton.mp hNew
        exact absurd hSeq (Nat.not_le_of_lt (Nat.lt_succ_of_le hBehind))
    · exact (hAnchored.known event hEvent).imp (mem_append_left _) id
  · rcases mem_append.mp hRow with hOld | hNew
    · exact (h.waiting hCaught row hOld hLater).imp (mem_append_left _) id
    · exact .inl (mem_append_right _ hNew)

theorem Kept.purge (h : Kept apply empty world) (gone : EventEnvelope → Bool) :
    Kept apply empty { world with log := world.log.purge gone } := by
  have hRows : ∀ row ∈ (world.log.purge gone).rows, row ∈ world.log.rows := fun row hRow => (mem_filter.mp hRow).1
  refine ⟨h.fold, h.sorted, h.upTo, fun hUp => ?_, h.live, fun hCaught row hRow hLater =>
    h.waiting hCaught row (hRows row hRow) hLater⟩
  obtain ⟨hAnchored, hBehind⟩ := h.anchored hUp
  refine ⟨⟨fun row hRow hSeq => hAnchored.indexed row (hRows row hRow) hSeq, fun event hEvent => ?_⟩, hBehind⟩
  rcases hAnchored.known event hEvent with hRow | hPurged
  · cases hGone : gone event with
    | true => exact .inr (mem_append_right _ (mem_filter.mpr ⟨hRow, hGone⟩))
    | false => exact .inl (mem_filter.mpr ⟨hRow, by rw [hGone]; rfl⟩)
  · exact .inr (mem_append_left _ hPurged)

theorem Kept.startCatchUp (h : Kept apply empty world) (hSteady : world.Steady .startCatchUp) :
    Kept apply empty (startCatchUp empty world) := by
  unfold GraphWorld.startCatchUp
  cases hReason : rollbackReason world.graph.cursor world.log with
  | some reason =>
    -- the index starts over
    refine ⟨rfl, .nil, fun _ hMem => absurd hMem not_mem_nil, fun _ => ⟨⟨fun row hRow hSeq => ?_,
      fun _ hMem => absurd hMem not_mem_nil⟩, Nat.zero_le _⟩, fun _ => .inr rfl, fun hCaught => by cases hCaught⟩
    exact absurd hSeq (Nat.not_le_of_lt (world.log.positive row hRow))
  | none =>
    refine ⟨h.fold, h.sorted, h.upTo, fun _ => ?_, fun _ => .inr rfl, fun hCaught => by cases hCaught⟩
    have hAnchored := hSteady hReason
    exact ⟨⟨hAnchored.indexed, hAnchored.known⟩, position_le_of_resumed hReason⟩

theorem Kept.publish {place : Nat} (h : Kept apply empty world) (hSteady : world.Steady (.publish place))
    (hStep : step apply empty world (.publish place) = some after) : Kept apply empty after := by
  obtain ⟨envelope, hFound, rfl⟩ := Option.map_eq_some_iff.mp hStep
  refine h.same rfl rfl (fun hUp => ⟨hUp, rfl⟩) (fun hLive => h.live (by simpa using hLive)) fun hCaught row hRow hLater => ?_
  rcases h.waiting hCaught row hRow hLater with hUnpublished | hPending
  · rcases mem_or_eraseIdx hFound hUnpublished with rfl | hKept
    · -- the published event reaches the subscriber, or the index has it
      rcases hSteady with hLive | hSpares
      · obtain ⟨inbox, hInbox⟩ := Option.isSome_iff_exists.mp hLive
        refine .inr ?_
        change row ∈ (world.inbox.map fun inbox => inbox ++ [row]).getD []
        rw [hInbox]
        exact mem_append_right _ (mem_singleton.mpr rfl)
      · rcases hSpares row hFound with hCatching | hTaken
        · cases hCaught.symm.trans hCatching
        · exact absurd hLater (Nat.not_lt_of_le hTaken)
    · exact .inl hKept
  · refine .inr ?_
    change row ∈ (world.inbox.map fun inbox => inbox ++ [envelope]).getD []
    unfold pending at hPending
    cases hInbox : world.inbox with
    | none =>
      rw [hInbox] at hPending
      exact absurd hPending not_mem_nil
    | some inbox =>
      rw [hInbox] at hPending
      exact mem_append_left _ hPending

theorem Kept.deliver {fault : Option (WorkspaceGraph Index)} (h : Kept apply empty world) (hSteady : world.Steady (.deliver fault))
    (hStep : step apply empty world (.deliver fault) = some after) : Kept apply empty after := by
  dsimp only [GraphWorld.step] at hStep
  split at hStep
  · rename_i envelope rest hInbox
    cases hStep
    have hUp : world.Up := h.live (by rw [hInbox]; rfl)
    have hHead : envelope ∈ world.pending.head? := by
      rw [pending, hInbox]
      rfl
    -- what waits in the channel, waits behind the received event
    have hRest : world.caughtUp = true → ∀ row ∈ world.log.rows, world.graph.position < row.seq →
        row = envelope ∨ row ∈ world.unpublished ∨ row ∈ rest := by
      intro hCaught row hRow hLater
      rcases h.waiting hCaught row hRow hLater with hUnpublished | hPending
      · exact .inr (.inl hUnpublished)
      · rw [pending, hInbox] at hPending
        rcases mem_cons.mp hPending with rfl | hMem
        · exact .inl rfl
        · exact .inr (.inr hMem)
    cases fault with
    | none =>
      have hNext : world.Next envelope := hSteady envelope hHead
      refine h.take_next hUp hNext hUp fun hCaught row hRow hLater => ?_
      rcases hRest hCaught row hRow (Nat.lt_trans hNext.later hLater) with rfl | hWaits
      · exact absurd hLater (Nat.lt_irrefl _)
      · exact hWaits
    | some left =>
      obtain ⟨rfl, hSpares⟩ := hSteady
      refine h.same rfl rfl (fun hStays => ⟨hStays, rfl⟩) (fun _ => hUp) fun hCaught row hRow hLater => ?_
      rcases hRest hCaught row hRow hLater with rfl | hWaits
      · rcases hSpares row hHead with hCatching | hTaken
        · cases hCaught.symm.trans hCatching
        · exact absurd hLater (Nat.not_lt_of_le hTaken)
      · exact hWaits
  · cases hStep

theorem Kept.lag {skipped : Nat} (h : Kept apply empty world) (hSteady : world.Steady (.lag skipped))
    (hStep : step apply empty world (.lag skipped) = some after) : Kept apply empty after := by
  obtain ⟨inbox, hInbox, rfl⟩ := Option.map_eq_some_iff.mp hStep
  refine h.same rfl rfl (fun hUp => ⟨hUp, rfl⟩) (fun _ => h.live (by rw [hInbox]; rfl)) fun hCaught row hRow hLater => ?_
  rcases h.waiting hCaught row hRow hLater with hUnpublished | hPending
  · exact .inl hUnpublished
  · rw [pending, hInbox] at hPending
    change row ∈ inbox at hPending
    rw [← take_append_drop skipped inbox] at hPending
    rcases mem_append.mp hPending with hSkipped | hKept
    · have hSpares := hSteady row (by rw [pending, hInbox]; exact hSkipped)
      rcases hSpares with hCatching | hTaken
      · cases hCaught.symm.trans hCatching
      · exact absurd hLater (Nat.not_lt_of_le hTaken)
    · exact .inr hKept

theorem Kept.step (h : Kept apply empty world) (hSteady : world.Steady action) (hStep : step apply empty world action = some after) :
    Kept apply empty after := by
  cases action with
  | append envelope =>
    cases hStep
    exact h.append envelope
  | publish place => exact h.publish hSteady hStep
  | subscribe =>
    dsimp only [GraphWorld.step] at hStep
    split at hStep
    · rename_i hReady
      cases hStep
      rw [Bool.and_eq_true] at hReady
      refine h.same rfl rfl (fun hUp => ⟨hUp, rfl⟩) (fun _ => .inl hReady.1) fun hCaught row hRow hLater => ?_
      rcases h.waiting hCaught row hRow hLater with hUnpublished | hPending
      · exact .inl hUnpublished
      · rw [pending, Option.isNone_iff_eq_none.mp hReady.2] at hPending
        exact absurd hPending not_mem_nil
    · cases hStep
  | deliver fault => exact h.deliver hSteady hStep
  | lag skipped => exact h.lag hSteady hStep
  | stop =>
    cases hStep
    refine h.same rfl rfl ?_ (fun hLive => by cases hLive) fun hCaught => by cases hCaught
    rintro (hIs | hIs) <;> cases hIs
  | startCatchUp =>
    dsimp only [GraphWorld.step] at hStep
    split at hStep
    · cases hStep
      exact h.startCatchUp hSteady
    · cases hStep
  | load =>
    dsimp only [GraphWorld.step] at hStep
    split at hStep
    · rename_i last hCatchUp
      obtain ⟨row, _, rfl⟩ := Option.map_eq_some_iff.mp hStep
      have hUp : world.Up := .inr (by rw [hCatchUp]; rfl)
      exact h.same rfl rfl (fun _ => ⟨hUp, rfl⟩) (fun _ => .inr rfl) h.waiting
    · cases hStep
  | replay fault =>
    dsimp only [GraphWorld.step] at hStep
    split at hStep
    · rename_i last envelope rest hCatchUp
      cases hStep
      have hUp : world.Up := .inr (by rw [hCatchUp]; rfl)
      cases fault with
      | none =>
        have hNext : world.Next envelope := hSteady ⟨last, envelope :: rest⟩ hCatchUp envelope rfl
        exact h.take_next hUp hNext (.inr rfl) fun hCaught row hRow hLater =>
          h.waiting hCaught row hRow (Nat.lt_trans hNext.later hLater)
      | some left =>
        cases (hSteady : left = world.graph)
        exact h.same rfl rfl (fun _ => ⟨hUp, rfl⟩) (fun _ => .inr rfl) h.waiting
    · cases hStep
  | finish =>
    dsimp only [GraphWorld.step] at hStep
    split at hStep
    · rename_i last hCatchUp
      split at hStep
      · cases hStep
        have hUp : world.Up := .inr (by rw [hCatchUp]; rfl)
        refine h.same rfl rfl (fun _ => ⟨hUp, rfl⟩) (fun _ => .inl rfl) fun _ row hRow hLater => ?_
        exact absurd hLater (Nat.not_lt_of_le (hSteady row hRow))
      · cases hStep
    · cases hStep
  | purge gone =>
    cases hStep
    exact h.purge gone
  | backup =>
    cases hStep
    exact h.same rfl rfl (fun hUp => ⟨hUp, rfl⟩) h.live h.waiting
  | restore place =>
    dsimp only [GraphWorld.step] at hStep
    split at hStep
    · rename_i hDown
      obtain ⟨log, _, rfl⟩ := Option.map_eq_some_iff.mp hStep
      simp only [Bool.and_eq_true, Option.isNone_iff_eq_none, Bool.not_eq_true'] at hDown
      have hNotUp : ¬({ world with log := log, unpublished := [] } : GraphWorld Index).Up := by
        rintro (hIs | hIs)
        · cases hDown.2.symm.trans hIs
        · have hNone : ({ world with log := log, unpublished := [] } : GraphWorld Index).catchUp = none := hDown.1.2
          rw [hNone] at hIs
          cases hIs
      refine ⟨h.fold, h.sorted, h.upTo, fun hUp => absurd hUp hNotUp, fun hLive => ?_, fun hCaught =>
        absurd (.inl hCaught) hNotUp⟩
      have hNone : ({ world with log := log, unpublished := [] } : GraphWorld Index).inbox = none := hDown.1.1
      rw [hNone] at hLive
      cases hLive
    · cases hStep

theorem Kept.run (hRun : Transition.Trace (DoesSteadily apply empty) (GraphWorld.init empty) world) :
    Kept apply empty world := by
  have hPreserved : Transition.Preserves (DoesSteadily apply empty) (Kept apply empty) :=
    fun _ _ ⟨_, hSteady, hStep⟩ hKept => hKept.step hSteady hStep
  exact hPreserved.trace hRun Kept.init

/-- After a steady run, a catch-up that has finished with nothing on its way leaves the
fold of the log. -/
theorem catch_up_mirrors (hRun : Transition.Trace (DoesSteadily apply empty) (init empty) world) (hSettled : world.Settled) :
    ∃ events, world.Mirrors apply empty events := by
  have hKept := Kept.run hRun
  obtain ⟨hAnchored, _⟩ := hKept.anchored (.inl hSettled.caughtUp)
  refine ⟨world.indexed, hKept.fold, hKept.sorted, fun row hRow => ?_, hAnchored.known⟩
  by_cases hTaken : row.seq ≤ world.graph.position
  · exact hAnchored.indexed row hRow hTaken
  · rcases hKept.waiting hSettled.caughtUp row hRow (Nat.lt_of_not_le hTaken) with hUnpublished | hPending
    · rw [hSettled.published] at hUnpublished
      exact absurd hUnpublished not_mem_nil
    · rw [hSettled.received] at hPending
      exact absurd hPending not_mem_nil

theorem Mirrors.eq_rows {events : List EventEnvelope} (h : world.Mirrors apply empty events) (hPurged : world.log.purged = []) :
    world.graph.index = world.log.rows.foldl apply empty := by
  have hSame : events = world.log.rows := by
    have hMem : ∀ event, event ∈ events ↔ event ∈ world.log.rows := by
      intro event
      refine ⟨fun hEvent => (h.only event hEvent).resolve_right fun hGone => ?_, h.complete event⟩
      rw [hPurged] at hGone
      exact absurd hGone not_mem_nil
    have hNodup : ∀ rows : List EventEnvelope, rows.Pairwise (fun a b => a.seq < b.seq) → rows.Nodup :=
      fun rows hSorted => hSorted.imp fun hLt hSame => Nat.ne_of_lt hLt (congrArg EventEnvelope.seq hSame)
    have hPerm := (perm_ext_iff_of_nodup (hNodup events h.sorted) (hNodup world.log.rows world.log.sorted)).mpr hMem
    exact hPerm.eq_of_pairwise (fun a b _ _ hLt hGt => absurd hGt (Nat.lt_asymm hLt)) h.sorted world.log.sorted
  rw [← hSame]
  exact h.fold

def applyText (texts : List (DocumentId × String)) (envelope : EventEnvelope) : List (DocumentId × String) :=
  match envelope.payload with
  | .document (.documentCreated document) =>
    texts.filter (fun entry => entry.1 ≠ document.id) ++ [(document.id, document.content)]
  | .document (.documentContentReplaced documentId content _) =>
    texts.map fun entry => if entry.1 = documentId then (documentId, content) else entry
  | .document (.documentContentAppended documentId appended _) =>
    texts.map fun entry => if entry.1 = documentId then
      (documentId, if entry.2 = "" then appended else entry.2 ++ "\n" ++ appended) else entry
  | _ => texts

/-- Actions in their order, where each can happen. -/
def acts (apply : Index → EventEnvelope → Index) (empty : Index) (actions : List (GraphAction Index)) :
    Option (GraphWorld Index) :=
  actions.foldlM (GraphWorld.step apply empty) (GraphWorld.init empty)

theorem trace_of_foldlM {start : GraphWorld Index} {actions : List (GraphAction Index)}
    (h : actions.foldlM (GraphWorld.step apply empty) start = some world) :
    Transition.Trace (Does apply empty) start world := by
  induction actions generalizing start with
  | nil =>
    cases h
    exact .refl
  | cons action rest ih =>
    rw [foldlM_cons] at h
    obtain ⟨middle, hStep, hRest⟩ := Option.bind_eq_some_iff.mp h
    exact .head ⟨action, hStep⟩ (ih hRest)

private def written (n : Nat) (content : String) : EventEnvelope :=
  .new ⟨n⟩ 0 .anyUser (.document (.documentCreated
    ⟨⟨n⟩, ⟨9⟩, .humanLog, "document", content, .active, none, none, none, 0, 0, none, none, none, 0⟩))

/-- The index cannot take the first of two events, and takes the second. -/
private def faultedRun : List (GraphAction (List (DocumentId × String))) :=
  [.startCatchUp, .finish, .subscribe, .append (written 1 "first"), .publish 0, .deliver (some (.reset [])),
    .append (written 2 "second"), .publish 0, .deliver none, .stop, .startCatchUp, .finish]

/-- The next start catches up from the cursor, which is past the event that is missing. -/
theorem catch_up_passes_over : ¬∀ world : GraphWorld (List (DocumentId × String)),
    Transition.Trace (Does applyText []) (GraphWorld.init []) world → world.Settled →
      ∃ events, world.Mirrors applyText [] events := by
  intro hAll
  have hRun : ((acts applyText [] faultedRun).map fun world => (world.caughtUp, world.unpublished.length,
      world.pending.length, world.log.purged.length)) = some (true, 0, 0, 0) := by decide +kernel
  have hTexts : ((acts applyText [] faultedRun).map fun world => decide (world.graph.index =
      world.log.rows.foldl applyText [])) = some false := by decide +kernel
  obtain ⟨world, hWorld, hIs⟩ := Option.map_eq_some_iff.mp hRun
  rw [hWorld] at hTexts
  simp only [Prod.mk.injEq, length_eq_zero_iff] at hIs
  obtain ⟨events, hMirrors⟩ := hAll world (trace_of_foldlM hWorld) ⟨hIs.1, hIs.2.1, hIs.2.2.1⟩
  exact absurd (hMirrors.eq_rows hIs.2.2.2) (of_decide_eq_false (Option.some.inj hTexts))

/-- An event is appended under a server that is down, which then catches up. -/
private def plainRun : List (GraphAction (List (DocumentId × String))) :=
  [.append (written 1 "first"), .publish 0, .startCatchUp, .load, .replay none, .finish]

private def plainWorld (n : Nat) : GraphWorld (List (DocumentId × String)) :=
  (acts applyText [] (plainRun.take n)).getD (GraphWorld.init [])

private theorem plainRun_steadily : Transition.Trace (DoesSteadily applyText []) (GraphWorld.init []) (plainWorld 6) := by
  have hAppend : DoesSteadily applyText [] (GraphWorld.init []) (plainWorld 1) :=
    ⟨.append (written 1 "first"), trivial, rfl⟩
  have hPublish : DoesSteadily applyText [] (plainWorld 1) (plainWorld 2) := ⟨.publish 0, .inr fun _ _ => .inl rfl, rfl⟩
  have hStart : DoesSteadily applyText [] (plainWorld 2) (plainWorld 3) := by
    refine ⟨.startCatchUp, fun _ => ⟨fun row hRow hSeq => ?_, fun _ hMem => absurd hMem not_mem_nil⟩, rfl⟩
    exact absurd hSeq (Nat.not_le_of_lt ((plainWorld 2).log.positive row hRow))
  have hLoad : DoesSteadily applyText [] (plainWorld 3) (plainWorld 4) := ⟨.load, trivial, rfl⟩
  have hReplay : DoesSteadily applyText [] (plainWorld 4) (plainWorld 5) := by
    refine ⟨.replay none, fun catchUp hCatchUp envelope hEnvelope => ?_, rfl⟩
    cases hCatchUp
    cases hEnvelope
    exact ⟨mem_singleton.mpr rfl, Nat.zero_lt_one, fun row hRow => .inr (by cases mem_singleton.mp hRow; exact Nat.le_refl _)⟩
  have hFinish : DoesSteadily applyText [] (plainWorld 5) (plainWorld 6) := by
    refine ⟨.finish, fun row hRow => ?_, rfl⟩
    cases mem_singleton.mp hRow
    exact Nat.le_refl _
  exact .tail (.tail (.tail (.tail (.tail (.single hAppend) hPublish) hStart) hLoad) hReplay) hFinish

theorem catch_up_mirrors_plain : (plainWorld 6).log.rows ≠ [] ∧
    ∃ events, (plainWorld 6).Mirrors applyText [] events :=
  ⟨cons_ne_nil _ _, catch_up_mirrors plainRun_steadily ⟨rfl, rfl, rfl⟩⟩

end GraphWorld
end Daruma
