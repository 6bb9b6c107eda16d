import Mathlib.Data.List.Nodup

/-! Finite tables whose rows are determined by a key. The key constraint is a
field, so a table with two rows of one key cannot be built. Rows keep the order
in which a store lists them: an update stays in place, a new row goes last. -/

/-- A list of rows in which every key occurs at most once. -/
@[ext]
structure KeyedTable (Key Row : Type) (key : Row → Key) where
  rows : List Row
  nodup : (rows.map key).Nodup

namespace KeyedTable

variable {Key Row : Type} {key : Row → Key}

instance [DecidableEq Row] : DecidableEq (KeyedTable Key Row key) := fun left right =>
  decidable_of_iff (left.rows = right.rows) KeyedTable.ext_iff.symm

instance : Membership Row (KeyedTable Key Row key) := ⟨fun table row => row ∈ table.rows⟩

instance [DecidableEq Row] (row : Row) (table : KeyedTable Key Row key) : Decidable (row ∈ table) :=
  inferInstanceAs (Decidable (row ∈ table.rows))

@[simp] theorem mem_rows {row : Row} {table : KeyedTable Key Row key} : row ∈ table.rows ↔ row ∈ table :=
  Iff.rfl

/-- The table without rows. -/
def empty : KeyedTable Key Row key := ⟨[], List.nodup_nil⟩

instance : Inhabited (KeyedTable Key Row key) := ⟨empty⟩

@[simp] theorem not_mem_empty (row : Row) : row ∉ (empty : KeyedTable Key Row key) :=
  List.not_mem_nil

theorem eq_of_key_eq {table : KeyedTable Key Row key} {left right : Row} (hLeft : left ∈ table)
    (hRight : right ∈ table) (h : key left = key right) : left = right :=
  List.inj_on_of_nodup_map table.nodup hLeft hRight h

/-- Keep the rows that satisfy a test. Deleting rows is keeping the others. -/
def filter (table : KeyedTable Key Row key) (keep : Row → Bool) : KeyedTable Key Row key :=
  ⟨table.rows.filter keep, (List.Sublist.map key List.filter_sublist).nodup table.nodup⟩

variable {keep : Row → Bool} {f : Row → Row} {other : Row}

@[simp] theorem mem_filter {table : KeyedTable Key Row key} {row : Row} :
    row ∈ table.filter keep ↔ row ∈ table ∧ keep row = true :=
  List.mem_filter

theorem filter_eq_self {table : KeyedTable Key Row key}
    (h : ∀ row ∈ table, keep row = true) : table.filter keep = table :=
  KeyedTable.ext (List.filter_eq_self.mpr h)

protected theorem filter_congr {table : KeyedTable Key Row key} {test : Row → Bool}
    (h : ∀ row ∈ table, keep row = test row) : table.filter keep = table.filter test :=
  KeyedTable.ext (List.filter_congr h)

/-- Rewrite rows in place by a function that leaves keys alone. -/
def mapRows (table : KeyedTable Key Row key) (f : Row → Row) (hKey : ∀ row, key (f row) = key row) :
    KeyedTable Key Row key :=
  ⟨table.rows.map f, by
    have hSame : (table.rows.map f).map key = table.rows.map key := by
      rw [List.map_map]
      exact List.map_congr_left fun row _ => hKey row
    rw [hSame]
    exact table.nodup⟩

@[simp] theorem mem_mapRows {table : KeyedTable Key Row key}
    {hKey : ∀ row, key (f row) = key row} {row : Row} :
    row ∈ table.mapRows f hKey ↔ ∃ old ∈ table, f old = row :=
  List.mem_map

variable [DecidableEq Key]

/-- The row stored under a key. -/
def find? (table : KeyedTable Key Row key) (k : Key) : Option Row :=
  table.rows.find? fun row => key row = k

def contains (table : KeyedTable Key Row key) (k : Key) : Bool :=
  (table.find? k).isSome

variable {k : Key} {row : Row}

theorem find?_eq_some_iff {table : KeyedTable Key Row key} :
    table.find? k = some row ↔ row ∈ table ∧ key row = k := by
  constructor
  · intro h
    exact ⟨List.mem_of_find?_eq_some h, by simpa using List.find?_some h⟩
  · rintro ⟨hMem, rfl⟩
    cases h : table.find? (key row) with
    | none =>
      have hNone := List.find?_eq_none.mp h row hMem
      simp at hNone
    | some found =>
      have hFound : found ∈ table := List.mem_of_find?_eq_some h
      have hSame : key found = key row := by simpa using List.find?_some h
      rw [eq_of_key_eq hFound hMem hSame]

theorem find?_eq_none_iff {table : KeyedTable Key Row key} :
    table.find? k = none ↔ ∀ row ∈ table, key row ≠ k := by
  simp only [find?, List.find?_eq_none, decide_eq_true_eq]
  rfl

theorem find?_of_mem {table : KeyedTable Key Row key} (h : row ∈ table) :
    table.find? (key row) = some row :=
  find?_eq_some_iff.mpr ⟨h, rfl⟩

theorem mem_of_find? {table : KeyedTable Key Row key} (h : table.find? k = some row) : row ∈ table :=
  (find?_eq_some_iff.mp h).1

theorem key_of_find? {table : KeyedTable Key Row key} (h : table.find? k = some row) : key row = k :=
  (find?_eq_some_iff.mp h).2

theorem contains_iff {table : KeyedTable Key Row key} :
    table.contains k = true ↔ ∃ row ∈ table, key row = k := by
  rw [contains, Option.isSome_iff_exists]
  constructor
  · rintro ⟨row, h⟩
    exact ⟨row, find?_eq_some_iff.mp h⟩
  · rintro ⟨row, h⟩
    exact ⟨row, find?_eq_some_iff.mpr h⟩

theorem find?_filter (table : KeyedTable Key Row key) (keep : Row → Bool) (k : Key) :
    (table.filter keep).find? k = (table.find? k).filter keep := by
  cases h : table.find? k with
  | none =>
    rw [Option.filter_none, find?_eq_none_iff]
    intro row hRow
    exact find?_eq_none_iff.mp h row (mem_filter.mp hRow).1
  | some row =>
    obtain ⟨hMem, hKey⟩ := find?_eq_some_iff.mp h
    cases hKeep : keep row with
    | true =>
      rw [Option.filter_some_pos hKeep, find?_eq_some_iff]
      exact ⟨mem_filter.mpr ⟨hMem, hKeep⟩, hKey⟩
    | false =>
      rw [Option.filter_some_neg (by simp [hKeep]), find?_eq_none_iff]
      intro other hOther hSame
      obtain ⟨hOtherMem, hOtherKeep⟩ := mem_filter.mp hOther
      rw [eq_of_key_eq hOtherMem hMem (hSame.trans hKey.symm), hKeep] at hOtherKeep
      cases hOtherKeep

/-- Delete the row of a key. -/
def erase (table : KeyedTable Key Row key) (k : Key) : KeyedTable Key Row key :=
  table.filter fun row => key row ≠ k

@[simp] theorem mem_erase {table : KeyedTable Key Row key} {k : Key} {row : Row} :
    row ∈ table.erase k ↔ row ∈ table ∧ key row ≠ k := by
  simp [erase]

theorem find?_erase_self (table : KeyedTable Key Row key) (k : Key) :
    (table.erase k).find? k = none :=
  find?_eq_none_iff.mpr fun _ hRow => (mem_erase.mp hRow).2

theorem find?_erase_of_ne (table : KeyedTable Key Row key) {k k' : Key} (h : k' ≠ k) :
    (table.erase k).find? k' = table.find? k' := by
  rw [erase, find?_filter]
  cases hFind : table.find? k' with
  | none => rfl
  | some row =>
    have hKey := key_of_find? hFind
    exact Option.filter_some_pos (by simpa [hKey] using h)

/-- Replace, in place, the row that has this row's key. Nothing happens when
no row has it. -/
def replace (table : KeyedTable Key Row key) (row : Row) : KeyedTable Key Row key :=
  table.mapRows (fun old => if key old = key row then row else old) (by
    intro old
    split
    · rename_i h
      exact h.symm
    · rfl)

theorem mem_replace {table : KeyedTable Key Row key} : other ∈ table.replace row ↔
      (other = row ∧ ∃ old ∈ table, key old = key row) ∨ (other ∈ table ∧ key other ≠ key row) := by
  rw [replace, mem_mapRows]
  constructor
  · rintro ⟨old, hOld, h⟩
    by_cases hKey : key old = key row
    · rw [if_pos hKey] at h
      exact Or.inl ⟨h.symm, old, hOld, hKey⟩
    · rw [if_neg hKey] at h
      subst h
      exact Or.inr ⟨hOld, hKey⟩
  · rintro (⟨rfl, old, hOld, hKey⟩ | ⟨hOther, hKey⟩)
    · exact ⟨old, hOld, if_pos hKey⟩
    · exact ⟨other, hOther, if_neg hKey⟩

/-- Append a row whose key is not taken. -/
def append (table : KeyedTable Key Row key) (row : Row) (h : table.find? (key row) = none) :
    KeyedTable Key Row key :=
  ⟨table.rows ++ [row], by
    rw [List.map_append, List.nodup_append]
    refine ⟨table.nodup, List.nodup_singleton _, ?_⟩
    intro k hk k' hk' hEq
    rw [List.map_singleton, List.mem_singleton] at hk'
    obtain ⟨old, hOld, rfl⟩ := List.mem_map.mp hk
    exact find?_eq_none_iff.mp h old hOld (hEq.trans hk')⟩

@[simp] theorem mem_append {table : KeyedTable Key Row key} {row : Row}
    {h : table.find? (key row) = none} : other ∈ table.append row h ↔ other ∈ table ∨ other = row := by
  change other ∈ table.rows ++ [row] ↔ _
  rw [List.mem_append, List.mem_singleton, mem_rows]

/-- Insert a row, updating the row of its key in place when there is one. -/
def upsert (table : KeyedTable Key Row key) (row : Row) : KeyedTable Key Row key :=
  if h : table.find? (key row) = none then table.append row h else table.replace row

@[simp] theorem mem_upsert {table : KeyedTable Key Row key} {row : Row} :
    other ∈ table.upsert row ↔ other = row ∨ (other ∈ table ∧ key other ≠ key row) := by
  unfold upsert
  split
  · rename_i h
    rw [mem_append]
    constructor
    · rintro (hOther | hOther)
      · exact Or.inr ⟨hOther, find?_eq_none_iff.mp h other hOther⟩
      · exact Or.inl hOther
    · rintro (hOther | hOther)
      · exact Or.inr hOther
      · exact Or.inl hOther.1
  · rename_i h
    obtain ⟨old, hOld⟩ := Option.ne_none_iff_exists'.mp h
    have hTaken : ∃ old ∈ table, key old = key row := ⟨old, find?_eq_some_iff.mp hOld⟩
    simp [mem_replace, hTaken]

def insertOrReplace (table : KeyedTable Key Row key) (row : Row) : KeyedTable Key Row key :=
  (table.erase (key row)).append row (find?_erase_self table (key row))

@[simp] theorem mem_insertOrReplace {table : KeyedTable Key Row key} {row : Row} :
    other ∈ table.insertOrReplace row ↔ other = row ∨ (other ∈ table ∧ key other ≠ key row) := by
  rw [insertOrReplace, mem_append, mem_erase, or_comm]

/-- A table whose rows are an inserted row and the old rows of other keys
answers lookups accordingly. Both ways of inserting use it. -/
private theorem find?_of_mem_iff {table result : KeyedTable Key Row key}
    (h : ∀ other, other ∈ result ↔ other = row ∨ (other ∈ table ∧ key other ≠ key row)) (k : Key) :
    result.find? k = if key row = k then some row else table.find? k := by
  split
  · rename_i hKey
    exact find?_eq_some_iff.mpr ⟨(h row).mpr (Or.inl rfl), hKey⟩
  · rename_i hKey
    cases hFind : table.find? k with
    | none =>
      rw [find?_eq_none_iff] at hFind ⊢
      intro other hOther hSame
      rcases (h other).mp hOther with rfl | ⟨hMem, _⟩
      · exact hKey hSame
      · exact hFind other hMem hSame
    | some found =>
      obtain ⟨hMem, rfl⟩ := find?_eq_some_iff.mp hFind
      exact find?_of_mem ((h found).mpr (Or.inr ⟨hMem, fun hSame => hKey hSame.symm⟩))

theorem find?_upsert (table : KeyedTable Key Row key) (row : Row) (k : Key) :
    (table.upsert row).find? k = if key row = k then some row else table.find? k :=
  find?_of_mem_iff (fun _ => mem_upsert) k

theorem find?_insertOrReplace (table : KeyedTable Key Row key) (row : Row) (k : Key) :
    (table.insertOrReplace row).find? k = if key row = k then some row else table.find? k :=
  find?_of_mem_iff (fun _ => mem_insertOrReplace) k

theorem find?_replace (table : KeyedTable Key Row key) (row : Row) (k : Key) :
    (table.replace row).find? k = if key row = k then (table.find? k).map fun _ => row else table.find? k := by
  by_cases hTaken : table.find? (key row) = none
  · have hSame : table.replace row = table := by
      apply KeyedTable.ext
      refine (List.map_congr_left fun old hOld => ?_).trans (List.map_id _)
      exact if_neg (find?_eq_none_iff.mp hTaken old hOld)
    rw [hSame]
    split
    · rename_i hKey
      rw [← hKey, hTaken]
      rfl
    · rfl
  · have hUpsert : table.replace row = table.upsert row := by rw [upsert, dif_neg hTaken]
    rw [hUpsert, find?_upsert]
    split
    · rename_i hKey
      obtain ⟨old, hOld⟩ := Option.ne_none_iff_exists'.mp hTaken
      rw [← hKey, hOld]
      rfl
    · rfl

/-- Rewrite the row of a key in place. The rewritten row keeps the key only if
the function does; callers pass record updates of other columns. -/
def modify (table : KeyedTable Key Row key) (k : Key) (f : Row → Row) : KeyedTable Key Row key :=
  match table.find? k with
  | none => table
  | some row => table.replace (f row)

theorem modify_of_find?_eq_none {table : KeyedTable Key Row key} (f : Row → Row)
    (h : table.find? k = none) : table.modify k f = table := by
  simp [modify, h]

theorem modify_of_find?_eq_some {table : KeyedTable Key Row key}
    (f : Row → Row) (h : table.find? k = some row) : table.modify k f = table.replace (f row) := by
  simp [modify, h]

theorem find?_modify (table : KeyedTable Key Row key) (k k' : Key) (f : Row → Row)
    (hKey : ∀ row, key (f row) = key row) :
    (table.modify k f).find? k' = if k = k' then (table.find? k').map f else table.find? k' := by
  cases h : table.find? k with
  | none =>
    rw [modify_of_find?_eq_none f h]
    split
    · rename_i hSame
      rw [← hSame, h, Option.map_none]
    · rfl
  | some row =>
    rw [modify_of_find?_eq_some f h, find?_replace, hKey, key_of_find? h]
    split
    · rename_i hSame
      rw [← hSame, h, Option.map_some, Option.map_some]
    · rfl

theorem mem_modify {table : KeyedTable Key Row key} (hKey : ∀ row, key (f row) = key row) {row : Row} :
    row ∈ table.modify k f ↔
      (∃ old ∈ table, key old = k ∧ row = f old) ∨ (row ∈ table ∧ key row ≠ k) := by
  cases h : table.find? k with
  | none =>
    have hNone := find?_eq_none_iff.mp h
    rw [modify_of_find?_eq_none f h]
    constructor
    · exact fun hRow => Or.inr ⟨hRow, hNone row hRow⟩
    · rintro (⟨old, hOld, hk, _⟩ | ⟨hRow, _⟩)
      · exact absurd hk (hNone old hOld)
      · exact hRow
  | some found =>
    obtain ⟨hMem, rfl⟩ := find?_eq_some_iff.mp h
    rw [modify_of_find?_eq_some f h, mem_replace, hKey]
    constructor
    · rintro (⟨rfl, _⟩ | hRow)
      · exact Or.inl ⟨found, hMem, rfl, rfl⟩
      · exact Or.inr hRow
    · rintro (⟨old, hOld, hk, rfl⟩ | hRow)
      · rw [eq_of_key_eq hOld hMem hk]
        exact Or.inl ⟨rfl, found, hMem, rfl⟩
      · exact Or.inr hRow

/-- Rewriting a row in place, over the rows as a list. -/
theorem rows_modify (table : KeyedTable Key Row key) (k : Key) (f : Row → Row) (hKey : ∀ row, key (f row) = key row) :
    (table.modify k f).rows = table.rows.map fun row => if key row = k then f row else row := by
  cases h : table.find? k with
  | none =>
    have hNone := find?_eq_none_iff.mp h
    rw [modify_of_find?_eq_none f h]
    have hSame : table.rows.map (fun row => if key row = k then f row else row) = table.rows.map id :=
      List.map_congr_left fun row hRow => if_neg (hNone row hRow)
    rw [hSame, List.map_id]
  | some found =>
    obtain ⟨hMem, rfl⟩ := find?_eq_some_iff.mp h
    rw [modify_of_find?_eq_some f h, replace, mapRows]
    refine List.map_congr_left fun row hRow => ?_
    rw [hKey]
    split
    · rename_i hSame
      rw [eq_of_key_eq hRow hMem hSame]
    · rfl

end KeyedTable
