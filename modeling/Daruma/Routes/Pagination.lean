import Mathlib.Data.List.Nodup
import Mathlib.Data.List.Count

/-! Lists handed out page by page, and the walks that follow their cursors while the
list changes. -/
namespace Daruma
namespace Pagination

variable {Item : Type}

structure Page (Item : Type) where
  items : List Item
  nextCursor : Option String
  hasMore : Bool

/-- Up to `limit` items from `start` on, and whether more remain beyond them. -/
def takePage (items : List Item) (start limit : Nat) : List Item × Bool :=
  let page := (items.drop start).take (limit + 1)
  let hasMore : Bool := limit < page.length
  (if hasMore then page.take limit else page, hasMore)

def startOf (isNamed : String → Item → Bool) (items : List Item) (cursor : Option String) : Nat :=
  match cursor with
  | some cursor => ((items.findIdx? (isNamed cursor)).map (· + 1)).getD items.length
  | none => 0

def pageById (items : List Item) (cursor : Option String) (limit : Nat) (idOf : Item → String) : Page Item :=
  let start := startOf (fun cursor item => idOf item = cursor) items cursor
  let (page, hasMore) := takePage items start limit
  ⟨page, if hasMore then page.getLast?.map idOf else none, hasMore⟩

/-- What was withheld from a response, and how to get at it. -/
structure TruncationMarker where
  pointer : String
  remainingBytes : Nat
  remainingTokensEstimate : Nat
  summary : String

def bytesPerTokenEstimate : Nat := 4

def TruncationMarker.forListTail (pointer : String) (remainingItems remainingBytes : Nat) : TruncationMarker :=
  let tokens := remainingBytes / bytesPerTokenEstimate
  ⟨pointer, remainingBytes, tokens,
    s!"{remainingItems} more item(s) available, ~{remainingBytes} bytes (~{tokens} tokens); paginate with the cursor"⟩

structure McpPage (Item : Type) extends Page Item where
  truncated : Bool
  returned : Nat
  total : Nat
  truncation : Option TruncationMarker

/-- A page of rows whose id need not be a text; `bytes` measures the JSON of some rows. -/
def mcpPageById (rows : List Item) (cursor : Option String) (limit : Nat) (idOf : Item → Option String)
    (bytes : List Item → Nat) : McpPage Item :=
  let start := startOf (fun cursor row => idOf row = some cursor) rows cursor
  let tail := rows.drop start
  let truncated : Bool := limit < tail.length
  let rest := if truncated then tail.drop limit else []
  let page := if truncated then tail.take limit else tail
  let nextCursor :=
    if truncated then (page.getLast?.bind idOf).or (some (toString (start + page.length))) else none
  let truncation :=
    if truncated then some (.forListTail (nextCursor.getD "") rest.length (bytes rest)) else none
  ⟨⟨page, nextCursor, truncated⟩, truncated, page.length, rows.length, truncation⟩

/-- The items that a cursor has still before it. -/
def remaining (idOf : Item → String) (items : List Item) (cursor : Option String) : List Item :=
  items.drop (startOf (fun cursor item => idOf item = cursor) items cursor)

/-- Items that two states of a list share stand in one order in both. -/
def KeepsOrder (idOf : Item → String) (before after : List Item) : Prop :=
  ∀ a ∈ before.map idOf, ∀ b ∈ before.map idOf, a ∈ after.map idOf → b ∈ after.map idOf →
    ([a, b].Sublist (before.map idOf) ↔ [a, b].Sublist (after.map idOf))

/-- A walk reads one page of every state of a list, from the last cursor on, until
no more is promised. The item that a cursor names is there when the next page is read. -/
inductive Walk (idOf : Item → String) (limit : Nat) : Option String → List (List Item) → List Item → Prop
  | last {cursor : Option String} {items : List Item} (hLast : (pageById items cursor limit idOf).hasMore = false) :
    Walk idOf limit cursor [items] (pageById items cursor limit idOf).items
  | next {cursor : Option String} {items after : List Item} {later : List (List Item)} {returned : List Item}
      (hMore : (pageById items cursor limit idOf).hasMore = true) (hOrder : KeepsOrder idOf items after)
      (hKept : ∃ item ∈ after, (pageById items cursor limit idOf).nextCursor = some (idOf item))
      (hRest : Walk idOf limit (pageById items cursor limit idOf).nextCursor (after :: later) returned) :
    Walk idOf limit cursor (items :: after :: later) ((pageById items cursor limit idOf).items ++ returned)

variable {idOf : Item → String} {items : List Item} {cursor : Option String} {limit : Nat}

theorem takePage_eq (start : Nat) :
    takePage items start limit = ((items.drop start).take limit, decide (limit < (items.drop start).length)) := by
  unfold takePage
  by_cases hMore : limit < (items.drop start).length
  · have hLonger : limit < ((items.drop start).take (limit + 1)).length := by
      rw [List.length_take]
      omega
    simp only [hLonger, hMore, decide_true, if_true, List.take_take, Nat.min_eq_left (Nat.le_succ limit)]
  · have hWhole : (items.drop start).take (limit + 1) = items.drop start := List.take_of_length_le (by omega)
    simp only [hWhole, hMore, decide_false, Bool.false_eq_true, if_false]
    rw [List.take_of_length_le (by omega)]

theorem take_ne_nil (hLimit : 0 < limit) (hMore : limit < items.length) : items.take limit ≠ [] :=
  List.ne_nil_of_length_pos (by rw [List.length_take]; omega)

theorem pageById_items : (pageById items cursor limit idOf).items = (remaining idOf items cursor).take limit := by
  simp [pageById, takePage_eq, remaining]

theorem pageById_hasMore :
    (pageById items cursor limit idOf).hasMore = decide (limit < (remaining idOf items cursor).length) := by
  simp [pageById, takePage_eq, remaining]

theorem pageById_nextCursor (h : limit < (remaining idOf items cursor).length) :
    (pageById items cursor limit idOf).nextCursor = ((remaining idOf items cursor).take limit).getLast?.map idOf := by
  unfold remaining at h ⊢
  simp only [pageById, takePage_eq, decide_eq_true h, if_true]

theorem remaining_eq {before after : List Item} {item : Item}
    (h : ((before ++ item :: after).map idOf).Nodup) :
    remaining idOf (before ++ item :: after) (some (idOf item)) = after := by
  have hNew : ∀ other ∈ before, idOf other ≠ idOf item := by
    simp only [List.map_append, List.map_cons, List.nodup_append, List.mem_map, List.mem_cons] at h
    exact fun other hOther => h.2.2 _ ⟨other, hOther, rfl⟩ _ (.inl rfl)
  have hFound : (before ++ item :: after).findIdx? (fun other => decide (idOf other = idOf item)) =
      some before.length := by
    rw [List.findIdx?_append, List.findIdx?_eq_none_iff.mpr fun other hOther => by simpa using hNew other hOther]
    simp [List.findIdx?_cons]
  simp [remaining, startOf, hFound]

theorem mem_remaining {item : Item} (h : (items.map idOf).Nodup) (hItem : item ∈ items) (id : String) :
    id ∈ (remaining idOf items (some (idOf item))).map idOf ↔ [idOf item, id].Sublist (items.map idOf) := by
  obtain ⟨before, after, rfl⟩ := List.append_of_mem hItem
  rw [remaining_eq h]
  rw [List.map_append, List.map_cons] at h ⊢
  have hBefore : idOf item ∉ before.map idOf := fun hMem =>
    (List.nodup_append.mp h).2.2 _ hMem _ List.mem_cons_self rfl
  have hAfter : idOf item ∉ after.map idOf := (List.nodup_cons.mp (List.nodup_append.mp h).2.1).1
  constructor
  · intro hMem
    exact ((List.singleton_sublist.mpr hMem).cons_cons _).trans (List.sublist_append_right ..)
  · intro hSub
    obtain ⟨first, second, hSplit, hFirst, hSecond⟩ := List.sublist_append_iff.mp hSub
    cases first with
    | nil =>
      rw [List.nil_append] at hSplit
      subst hSplit
      cases hSecond with
      | cons _ hLater => exact absurd (hLater.subset List.mem_cons_self) hAfter
      | cons_cons _ hRest => exact List.singleton_sublist.mp hRest
    | cons head tail =>
      obtain ⟨rfl, _⟩ := List.cons.inj hSplit
      exact absurd (hFirst.subset List.mem_cons_self) hBefore

theorem nodup_remaining (h : (items.map idOf).Nodup) : ((remaining idOf items cursor).map idOf).Nodup :=
  h.sublist ((List.drop_sublist _ _).map idOf)

theorem exists_last (hLimit : 0 < limit) (hDistinct : (items.map idOf).Nodup)
    (hMore : limit < (remaining idOf items cursor).length) :
    ∃ item ∈ items, (pageById items cursor limit idOf).nextCursor = some (idOf item) ∧
      remaining idOf items (some (idOf item)) = (remaining idOf items cursor).drop limit := by
  obtain hNil | ⟨init, item, hPage⟩ := List.eq_nil_or_concat' ((remaining idOf items cursor).take limit)
  · exact absurd hNil (take_ne_nil hLimit hMore)
  · have hItems : items =
        (items.take (startOf (fun cursor item => idOf item = cursor) items cursor) ++ init) ++
          item :: (remaining idOf items cursor).drop limit := by
      calc items = _ ++ remaining idOf items cursor := (List.take_append_drop _ items).symm
        _ = _ ++ ((remaining idOf items cursor).take limit ++ (remaining idOf items cursor).drop limit) := by
          rw [List.take_append_drop]
        _ = _ := by
          rw [hPage]
          simp
    refine ⟨item, ?_, ?_, ?_⟩
    · rw [hItems]
      simp
    · rw [pageById_nextCursor hMore, hPage]
      simp
    · rw [hItems] at hDistinct
      conv_lhs => rw [hItems]
      exact remaining_eq hDistinct

theorem Walk.count_eq {lists : List (List Item)} {returned : List Item} {id : String} (hLimit : 0 < limit)
    (h : Walk idOf limit cursor lists returned) (hDistinct : ∀ items ∈ lists, (items.map idOf).Nodup)
    (hPresent : ∀ items ∈ lists, id ∈ items.map idOf) :
    ∀ items ∈ lists.head?, (returned.map idOf).count id = ((remaining idOf items cursor).map idOf).count id := by
  induction h with
  | last hLast =>
    rintro _ ⟨⟩
    rw [pageById_hasMore, decide_eq_false_iff_not, Nat.not_lt] at hLast
    rw [pageById_items, List.take_of_length_le hLast]
  | @next cursor items after later returned hMore hOrder hKept hRest ih =>
    rintro _ ⟨⟩
    rw [pageById_hasMore, decide_eq_true_iff] at hMore
    have hLater := ih (fun other hOther => hDistinct other (.tail _ hOther))
      (fun other hOther => hPresent other (.tail _ hOther)) after rfl
    have hNow := hDistinct items List.mem_cons_self
    have hThen := hDistinct after (.tail _ List.mem_cons_self)
    obtain ⟨item, hItem, hCursor, hBeyond⟩ := exists_last hLimit hNow hMore
    obtain ⟨kept, hKept, hIs⟩ := hKept
    rw [hCursor] at hLater hIs
    have hSame : idOf item = idOf kept := Option.some.inj hIs
    -- The item is after the cursor in the later list exactly when it was withheld.
    have hWithheld : id ∈ (remaining idOf after (some (idOf item))).map idOf ↔
        id ∈ ((remaining idOf items cursor).drop limit).map idOf := by
      rw [← hBeyond, mem_remaining hNow hItem, hSame, mem_remaining hThen hKept, ← hSame]
      exact (hOrder _ (List.mem_map_of_mem hItem) id (hPresent items List.mem_cons_self)
        (hSame ▸ List.mem_map_of_mem hKept) (hPresent after (.tail _ List.mem_cons_self))).symm
    have hDropped : (((remaining idOf items cursor).drop limit).map idOf).Nodup :=
      (nodup_remaining hNow).sublist ((List.drop_sublist _ _).map idOf)
    calc List.count id (((pageById items cursor limit idOf).items ++ returned).map idOf)
        = (((remaining idOf items cursor).take limit).map idOf).count id +
            ((remaining idOf after (some (idOf item))).map idOf).count id := by
          rw [List.map_append, List.count_append, hLater, pageById_items]
      _ = (((remaining idOf items cursor).take limit).map idOf).count id +
            (((remaining idOf items cursor).drop limit).map idOf).count id := by
          rw [(nodup_remaining hThen).count, hDropped.count]
          simp only [hWithheld]
      _ = ((remaining idOf items cursor).map idOf).count id := by
          rw [← List.count_append, ← List.map_append, List.take_append_drop]

/-- A walk returns every item that stays in the list exactly once. -/
theorem walk_complete {lists : List (List Item)} {returned : List Item} {id : String} (hLimit : 0 < limit)
    (h : Walk idOf limit none lists returned) (hDistinct : ∀ items ∈ lists, (items.map idOf).Nodup)
    (hPresent : ∀ items ∈ lists, id ∈ items.map idOf) : (returned.map idOf).count id = 1 := by
  cases lists with
  | nil => cases h
  | cons items later =>
    rw [h.count_eq hLimit hDistinct hPresent items rfl]
    exact List.count_eq_one_of_mem (hDistinct items List.mem_cons_self) (hPresent items List.mem_cons_self)

/-- Between its two pages the list loses its first item and gains one. -/
theorem walk_of_moving_list : (["a", "b", "c", "d"].map id).count "c" = 1 :=
  @walk_complete _ id 2 [["a", "b", "c"], ["b", "c", "d"]] _ _ (by decide)
    (.next rfl (by unfold KeepsOrder; decide) ⟨"b", by decide, rfl⟩ (.last rfl)) (by decide) (by decide)

/-- On rows that have their ids a page of the tools is the server's. -/
theorem mcpPageById_toPage {idOf : Item → String} {bytes : List Item → Nat} (rows : List Item)
    (cursor : Option String) (hLimit : 0 < limit) :
    (mcpPageById rows cursor limit (fun row => some (idOf row)) bytes).toPage =
      pageById rows cursor limit idOf := by
  unfold mcpPageById pageById
  simp only [takePage_eq, Option.some.injEq]
  generalize startOf (fun cursor row => decide (idOf row = cursor)) rows cursor = start
  by_cases hMore : limit < (rows.drop start).length
  · have hNonempty := take_ne_nil hLimit hMore
    simp only [hMore, decide_true, if_true, List.getLast?_eq_some_getLast hNonempty, Option.bind_some,
      Option.map_some, Option.some_or]
  · simp only [hMore, decide_false, Bool.false_eq_true, if_false]
    rw [List.take_of_length_le (by omega)]

theorem mcp_first_page :
    (mcpPageById ["a", "b", "c"] none 2 (fun row => some (id row)) List.length).toPage =
      pageById ["a", "b", "c"] none 2 id :=
  mcpPageById_toPage ["a", "b", "c"] none (by decide)

end Pagination
end Daruma
