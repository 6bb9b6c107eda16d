import Mathlib.Data.List.Basic
import Mathlib.Data.List.Sort

/-! Facts along lists: a property of every member, entries that each go on from the value that
the one before left, and the first rows in an order as those that few rows precede. -/
/-- Every member of the list has the property. -/
abbrev Everywhere {α : Type} (property : α → Prop) (list : List α) : Prop := ∀ a ∈ list, property a

namespace Everywhere

variable {α β : Type} {property : α → Prop} {a : α} {first second : List α}

theorem nil : Everywhere property [] := fun _ h => absurd h List.not_mem_nil

theorem cons (h : property a) (hRest : Everywhere property first) : Everywhere property (a :: first) :=
  List.forall_mem_cons.mpr ⟨h, hRest⟩

theorem append (h : Everywhere property first) (h' : Everywhere property second) :
    Everywhere property (first ++ second) :=
  List.forall_mem_append.mpr ⟨h, h'⟩

variable {list : List β}

theorem map {f : β → α} (h : ∀ b, property (f b)) : Everywhere property (list.map f) :=
  List.forall_mem_map.mpr fun b _ => h b

theorem flatMap {f : β → List α} (h : ∀ b, Everywhere property (f b)) : Everywhere property (list.flatMap f) := by
  intro a hMem
  obtain ⟨b, _, hA⟩ := List.mem_flatMap.mp hMem
  exact h b a hA

end Everywhere

namespace ChangeHistory

universe u v

variable {Entry : Type u} {Value : Type v} {before after : Entry → Value}

def Links (before after : Entry → Value) : Value → List Entry → Value → Prop
  | first, [], last => first = last
  | first, entry :: rest, last => before entry = first ∧ Links before after (after entry) rest last

theorem links_concat {entries : List Entry} {entry : Entry} {first last : Value} :
    Links before after first (entries ++ [entry]) last ↔
      Links before after first entries (before entry) ∧ after entry = last := by
  induction entries generalizing first with
  | nil => exact ⟨fun h => ⟨h.1.symm, h.2⟩, fun h => ⟨h.1.symm, h.2⟩⟩
  | cons other rest ih =>
    rw [List.cons_append, Links, Links, ih]
    exact ⟨fun ⟨hFirst, hRest, hLast⟩ => ⟨⟨hFirst, hRest⟩, hLast⟩, fun ⟨⟨hFirst, hRest⟩, hLast⟩ => ⟨hFirst, hRest, hLast⟩⟩

/-- The largest number of the entries so far. -/
def latest (numbers : List Nat) : Nat := numbers.foldl max 0

theorem latest_range' (n : Nat) : latest (List.range' 1 n) = n := by
  induction n with
  | zero => rfl
  | succ n ih =>
    rw [List.range'_1_concat, latest, List.foldl_append]
    change max (latest (List.range' 1 n)) (1 + n) = n + 1
    rw [ih]
    omega

end ChangeHistory

namespace Window

variable {α : Type} {before : α → α → Prop} [DecidableRel before] {rows : List α} {row : α}

/-- The rows that precede a row. -/
def ahead (before : α → α → Prop) [DecidableRel before] (rows : List α) (row : α) : Nat :=
  rows.countP fun other => !before row other

theorem ahead_perm {rows' : List α} (h : rows.Perm rows') : ahead before rows row = ahead before rows' row :=
  h.countP_eq _

theorem mem_take_of_pairwise (hRefl : ∀ row, before row row) (hAnti : ∀ row ∈ rows, ∀ other ∈ rows, before row other →
    before other row → row = other) (hSorted : rows.Pairwise before) (hNodup : rows.Nodup) (hRow : row ∈ rows) {n : Nat} :
    row ∈ rows.take n ↔ ahead before rows row < n := by
  induction rows generalizing n with
  | nil => cases hRow
  | cons first rest ih =>
    obtain ⟨hFirst, hRest⟩ := List.pairwise_cons.mp hSorted
    obtain ⟨hNew, hNodupRest⟩ := List.nodup_cons.mp hNodup
    have hLater := fun row hRow other hOther =>
      hAnti row (List.mem_cons_of_mem first hRow) other (List.mem_cons_of_mem first hOther)
    cases n with
    | zero => simp
    | succ n =>
      rw [List.take_succ_cons, List.mem_cons]
      by_cases hIs : row = first
      · have hNone : ahead before (first :: rest) row = 0 := by
          refine List.countP_eq_zero.mpr fun other hOther => ?_
          have hBefore : before row other := by
            rcases List.mem_cons.mp hOther with rfl | hOther
            · exact hIs ▸ hRefl row
            · exact hIs ▸ hFirst other hOther
          simp [hBefore]
        rw [hNone]
        exact iff_of_true (.inl hIs) (Nat.succ_pos n)
      · have hIn : row ∈ rest := (List.mem_cons.mp hRow).resolve_left hIs
        have hAhead : ¬before row first := fun hBefore =>
          hIs (hAnti row hRow first List.mem_cons_self hBefore (hFirst row hIn))
        have hCount : ahead before (first :: rest) row = ahead before rest row + 1 := by
          refine List.countP_cons_of_pos ?_
          simp [hAhead]
        rw [hCount, or_iff_right hIs, ih hLater hRest hNodupRest hIn]
        omega

theorem mem_take_insertionSort [Std.Total before] [IsTrans α before] (hAnti : ∀ row ∈ rows, ∀ other ∈ rows, before row other →
    before other row → row = other) (hNodup : rows.Nodup) {n : Nat} :
    row ∈ (rows.insertionSort before).take n ↔ row ∈ rows ∧ ahead before rows row < n := by
  have hPerm := List.perm_insertionSort before rows
  have hRefl : ∀ row, before row row := fun row => (Std.Total.total row row).elim id id
  constructor
  · intro hTaken
    have hIn := List.mem_of_mem_take hTaken
    refine ⟨hPerm.mem_iff.mp hIn, ?_⟩
    rw [← ahead_perm hPerm]
    refine (mem_take_of_pairwise hRefl (fun row hRow other hOther => ?_) (List.pairwise_insertionSort before rows)
      (hPerm.nodup_iff.mpr hNodup) hIn).mp hTaken
    exact hAnti row (hPerm.mem_iff.mp hRow) other (hPerm.mem_iff.mp hOther)
  · rintro ⟨hRow, hFew⟩
    refine (mem_take_of_pairwise hRefl (fun row hRow other hOther => ?_) (List.pairwise_insertionSort before rows)
      (hPerm.nodup_iff.mpr hNodup) (hPerm.mem_iff.mpr hRow)).mpr ?_
    · exact hAnti row (hPerm.mem_iff.mp hRow) other (hPerm.mem_iff.mp hOther)
    · rw [ahead_perm hPerm]
      exact hFew

end Window
