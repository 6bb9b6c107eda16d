import Mathlib.Data.List.Induction

/-! Items that override one another from the outside in. Each of them is of some
strictness, and a locked one lets no weaker item replace it. -/
namespace Overriding

variable {Item : Type} (strictness : Item → Nat) (locked : Item → Bool)

/-- The incumbent after one more item. -/
def settle (incumbent : Option Item) (item : Item) : Option Item :=
  match incumbent with
  | none => some item
  | some outer => if strictness item < strictness outer && locked outer then some outer else some item

/-- The item that stands at the end, outermost item first. -/
def settled (items : List Item) : Option Item :=
  items.foldl (settle strictness locked) none

/-- A locked item is stricter than the item and than everything between the two. -/
def Overruled (outer : List Item) (item : Item) : Prop :=
  ∃ before lock between, outer = before ++ lock :: between ∧ locked lock = true ∧
    strictness item < strictness lock ∧ ∀ middle ∈ between, strictness middle < strictness lock

/-- The innermost item that is not overruled. -/
def Stands (outer : List Item) (item : Item) (inner : List Item) : Prop :=
  ¬Overruled strictness locked outer item ∧
    ∀ mid later rest, inner = mid ++ later :: rest → Overruled strictness locked (outer ++ item :: mid) later

/-- The innermost item that is not overruled is weaker than a locked one outside of it. -/
def Weakened (items : List Item) : Prop :=
  ∃ outer item inner, items = outer ++ item :: inner ∧ Stands strictness locked outer item inner ∧
    ∃ lock ∈ outer, locked lock = true ∧ strictness item < strictness lock

variable {strictness : Item → Nat} {locked : Item → Bool} {items outer inner : List Item} {item incumbent : Item}

theorem settled_concat (items : List Item) (item : Item) :
    settled strictness locked (items ++ [item]) = settle strictness locked (settled strictness locked items) item := by
  rw [settled, List.foldl_append]
  rfl

theorem settle_of_weaker (hLocked : locked incumbent = true) (hWeaker : strictness item < strictness incumbent) :
    settle strictness locked (some incumbent) item = some incumbent :=
  if_pos (by simp [hLocked, hWeaker])

theorem settle_of_not (h : ¬(locked incumbent = true ∧ strictness item < strictness incumbent)) :
    settle strictness locked (some incumbent) item = some item :=
  if_neg fun hBoth => h (by simpa [and_comm] using hBoth)

/-- What stands at the end has stood since its place. -/
theorem settled_place (h : settled strictness locked items = some incumbent) :
    ∃ before between, items = before ++ incumbent :: between ∧
      ∀ middle ∈ between, locked incumbent = true ∧ strictness middle < strictness incumbent := by
  induction items using List.reverseRecOn generalizing incumbent with
  | nil => cases h
  | append_singleton items last ih =>
    rw [settled_concat] at h
    cases hOuter : settled strictness locked items with
    | none =>
      rw [hOuter] at h
      cases h
      exact ⟨items, [], rfl, fun _ hMem => absurd hMem List.not_mem_nil⟩
    | some held =>
      rw [hOuter] at h
      by_cases hDenied : locked held = true ∧ strictness last < strictness held
      · rw [settle_of_weaker hDenied.1 hDenied.2] at h
        cases h
        obtain ⟨before, between, rfl, hBetween⟩ := ih hOuter
        refine ⟨before, between ++ [last], by simp, fun middle hMem => ?_⟩
        rcases List.mem_append.mp hMem with hEarlier | hLast
        · exact hBetween middle hEarlier
        · exact List.mem_singleton.mp hLast ▸ hDenied
      · rw [settle_of_not hDenied] at h
        cases h
        exact ⟨items, [], rfl, fun _ hMem => absurd hMem List.not_mem_nil⟩

theorem settled_bound {before between : List Item} {lock : Item} (hLocked : locked lock = true)
    (hBetween : ∀ middle ∈ between, strictness middle < strictness lock) :
    ∃ held, settled strictness locked (before ++ lock :: between) = some held ∧ locked held = true ∧
      strictness lock ≤ strictness held := by
  induction between using List.reverseRecOn with
  | nil =>
    rw [settled_concat]
    cases hOuter : settled strictness locked before with
    | none => exact ⟨lock, rfl, hLocked, Nat.le_refl _⟩
    | some held =>
      by_cases hDenied : locked held = true ∧ strictness lock < strictness held
      · exact ⟨held, settle_of_weaker hDenied.1 hDenied.2, hDenied.1, Nat.le_of_lt hDenied.2⟩
      · exact ⟨lock, settle_of_not hDenied, hLocked, Nat.le_refl _⟩
  | append_singleton between last ih =>
    obtain ⟨held, hHeld, hHeldLocked, hStrict⟩ := ih fun middle hMem => hBetween middle (List.mem_append_left _ hMem)
    have hLast := hBetween last (List.mem_append_right _ (List.mem_singleton_self last))
    refine ⟨held, ?_, hHeldLocked, hStrict⟩
    rw [← List.cons_append, ← List.append_assoc, settled_concat, hHeld]
    exact settle_of_weaker hHeldLocked (Nat.lt_of_lt_of_le hLast hStrict)

theorem overruled_iff (h : settled strictness locked items = some incumbent) :
    Overruled strictness locked items item ↔ locked incumbent = true ∧ strictness item < strictness incumbent := by
  constructor
  · rintro ⟨before, lock, between, rfl, hLocked, hWeaker, hBetween⟩
    obtain ⟨held, hHeld, hHeldLocked, hStrict⟩ := @settled_bound _ _ _ before _ _ hLocked hBetween
    cases h.symm.trans hHeld
    exact ⟨hHeldLocked, Nat.lt_of_lt_of_le hWeaker hStrict⟩
  · rintro ⟨hLocked, hWeaker⟩
    obtain ⟨before, between, rfl, hBetween⟩ := settled_place h
    exact ⟨before, incumbent, between, rfl, hLocked, hWeaker, fun middle hMem => (hBetween middle hMem).2⟩

theorem settled_of_not_overruled (h : ¬Overruled strictness locked items item) :
    settled strictness locked (items ++ [item]) = some item := by
  rw [settled_concat]
  cases hOuter : settled strictness locked items with
  | none => rfl
  | some held => exact settle_of_not fun hDenied => h ((overruled_iff hOuter).mpr hDenied)

theorem settled_of_stands (h : Stands strictness locked outer item inner) :
    settled strictness locked (outer ++ item :: inner) = some item := by
  induction inner using List.reverseRecOn with
  | nil => exact settled_of_not_overruled h.1
  | append_singleton inner last ih =>
    have hSettled := ih ⟨h.1, fun mid later rest hSplit => h.2 mid later (rest ++ [last]) (by rw [hSplit]; simp)⟩
    have hDenied := (overruled_iff hSettled).mp (h.2 inner last [] rfl)
    rw [← List.cons_append, ← List.append_assoc, settled_concat, hSettled]
    exact settle_of_weaker hDenied.1 hDenied.2

theorem stands_of_settled (h : settled strictness locked items = some item) :
    ∃ outer inner, items = outer ++ item :: inner ∧ Stands strictness locked outer item inner := by
  induction items using List.reverseRecOn generalizing item with
  | nil => cases h
  | append_singleton items last ih =>
    by_cases hOverruled : Overruled strictness locked items last
    · cases hOuter : settled strictness locked items with
      | none =>
        obtain ⟨before, lock, between, rfl, hLocked, _, hBetween⟩ := hOverruled
        obtain ⟨held, hHeld, _⟩ := @settled_bound _ _ _ before _ _ hLocked hBetween
        cases hOuter.symm.trans hHeld
      | some held =>
        have hDenied := (overruled_iff hOuter).mp hOverruled
        rw [settled_concat, hOuter, settle_of_weaker hDenied.1 hDenied.2] at h
        cases h
        obtain ⟨outer, inner, rfl, hStands⟩ := ih hOuter
        refine ⟨outer, inner ++ [last], by simp, hStands.1, fun mid later rest hSplit => ?_⟩
        rcases rest.eq_nil_or_concat with rfl | ⟨rest, final, rfl⟩
        · obtain ⟨rfl, hLast⟩ := List.append_inj' hSplit rfl
          cases hLast
          exact hOverruled
        · have hSplit' : inner ++ [last] = (mid ++ later :: rest) ++ [final] := by
            rw [hSplit]
            simp
          exact hStands.2 mid later rest (List.append_inj' hSplit' rfl).1
    · rw [settled_of_not_overruled hOverruled] at h
      cases h
      refine ⟨items, [], rfl, hOverruled, fun mid later rest hNil => ?_⟩
      cases mid <;> cases hNil

theorem locks_hold_iff (h : settled strictness locked items = some incumbent) :
    (∀ lock ∈ items, locked lock = true → strictness lock ≤ strictness incumbent) ↔
      ¬Weakened strictness locked items := by
  constructor
  · rintro hHold ⟨outer, item, inner, rfl, hStands, lock, hLock, hLocked, hWeaker⟩
    cases h.symm.trans (settled_of_stands hStands)
    exact absurd (hHold lock (List.mem_append_left _ hLock) hLocked) (Nat.not_le.mpr hWeaker)
  · intro hNot lock hLock hLocked
    by_contra hWeaker
    obtain ⟨outer, inner, rfl, hStands⟩ := stands_of_settled h
    rcases List.mem_append.mp hLock with hOuter | hRest
    · exact hNot ⟨outer, incumbent, inner, rfl, hStands, lock, hOuter, hLocked, Nat.not_le.mp hWeaker⟩
    rcases List.mem_cons.mp hRest with rfl | hInner
    · exact hWeaker (Nat.le_refl _)
    · obtain ⟨mid, rest, rfl⟩ := List.append_of_mem hInner
      have hSettled : settled strictness locked (outer ++ incumbent :: mid) = some incumbent :=
        settled_of_stands ⟨hStands.1, fun mid' later rest' hSplit =>
          hStands.2 mid' later (rest' ++ lock :: rest) (by rw [hSplit]; simp)⟩
      exact hWeaker (Nat.le_of_lt ((overruled_iff hSettled).mp (hStands.2 mid lock rest rfl)).2)

theorem settled_eq_none : settled strictness locked items = none ↔ items = [] := by
  rcases items.eq_nil_or_concat with rfl | ⟨items, last, rfl⟩
  · exact ⟨fun _ => rfl, fun _ => rfl⟩
  · rw [List.concat_eq_append, settled_concat]
    refine ⟨fun hNone => ?_, fun hNil => absurd hNil (by simp)⟩
    unfold settle at hNone
    split at hNone
    · cases hNone
    · split at hNone <;> cases hNone

end Overriding
