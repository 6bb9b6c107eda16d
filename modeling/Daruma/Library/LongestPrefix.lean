import Mathlib.Data.List.Basic

/-! Paths below other paths, and the row of a table with the longest base above a path.
Of several rows with one base the first wins. -/
namespace LongestPrefix

open List

variable {α : Type} [DecidableEq α] (sep : α)

/-- The path is the base, or below it. -/
def inside (path base : List α) : Bool := path = base || (base ++ [sep]).isPrefixOf path

variable {sep}

theorem inside_iff {path base : List α} :
    inside sep path base = true ↔ path = base ∨ ∃ rest, path = base ++ sep :: rest := by
  unfold inside
  rw [Bool.or_eq_true, decide_eq_true_iff, isPrefixOf_iff_prefix]
  constructor
  · rintro (hSame | ⟨rest, hRest⟩)
    · exact .inl hSame
    · exact .inr ⟨rest, by rw [← hRest]; simp⟩
  · rintro (hSame | ⟨rest, hRest⟩)
    · exact .inl hSame
    · exact .inr ⟨rest, by rw [hRest]; simp⟩

theorem inside_self (path : List α) : inside sep path path = true := inside_iff.2 (.inl rfl)

theorem inside_trans {path middle base : List α} (hMiddle : inside sep path middle = true)
    (hBase : inside sep middle base = true) : inside sep path base = true := by
  rw [inside_iff] at *
  rcases hBase with hSame | ⟨rest, hRest⟩
  · exact hSame ▸ hMiddle
  · rcases hMiddle with hSame | ⟨below, hBelow⟩
    · exact .inr ⟨rest, hSame.trans hRest⟩
    · exact .inr ⟨rest ++ sep :: below, by rw [hBelow, hRest]; simp⟩

theorem inside_of_inside {path long short : List α} (hLong : inside sep path long = true)
    (hShort : inside sep path short = true) (hLength : short.length ≤ long.length) : inside sep long short = true := by
  rw [inside_iff] at *
  have hPrefix : ∀ {base}, (path = base ∨ ∃ rest, path = base ++ sep :: rest) → base <+: path := by
    rintro base (hSame | ⟨rest, hRest⟩)
    · exact hSame ▸ prefix_rfl
    · exact ⟨sep :: rest, hRest.symm⟩
  obtain ⟨between, hBetween⟩ := prefix_of_prefix_length_le (hPrefix hShort) (hPrefix hLong) hLength
  cases between with
  | nil => exact .inl (by rw [← hBetween]; simp)
  | cons first more =>
    have hFirst : first = sep := by
      rcases hShort with hSame | ⟨rest, hRest⟩
      · rcases hLong with hEq | ⟨below, hBelow⟩
        · have hLengths := congrArg List.length (hBetween.trans (hEq.symm.trans hSame))
          simp at hLengths
        · have hLengths := congrArg List.length (hBelow.symm.trans hSame)
          rw [← hBetween] at hLengths
          simp at hLengths
      · rcases hLong with hEq | ⟨below, hBelow⟩
        · have hJoined : short ++ first :: more = short ++ sep :: rest := hBetween.trans (hEq.symm.trans hRest)
          exact (List.cons.inj (append_cancel_left hJoined)).1
        · rw [← hBetween, hRest, append_assoc] at hBelow
          exact (List.cons.inj (append_cancel_left hBelow)).1.symm
    exact .inr ⟨more, by rw [← hBetween, hFirst]⟩

section

variable {Row : Type} (sep) (base : Row → List α)

/-- A row replaces the best one so far if its base is strictly longer. -/
def longer (path : List α) (best : Option Row) (row : Row) : Option Row :=
  if inside sep path (base row) && best.all (fun row' => (base row').length < (base row).length) then some row else best

def longest (rows : List Row) (path : List α) : Option Row := rows.foldl (longer sep base path) none

/-- A row of the table wins: no earlier one is as long, and no later one longer. -/
structure Wins (rows : List Row) (path : List α) (row : Row) : Prop where
  split : ∃ earlier later, rows = earlier ++ row :: later ∧ inside sep path (base row) = true ∧
    (∀ other ∈ earlier, inside sep path (base other) = true → (base other).length < (base row).length) ∧
    (∀ other ∈ later, inside sep path (base other) = true → (base other).length ≤ (base row).length)

end

section

variable {Row : Type} {base : Row → List α} {rows : List Row} {path : List α} {row : Row}

private theorem foldl_longer_later {later : List Row}
    (hLater : ∀ other ∈ later, inside sep path (base other) = true → (base other).length ≤ (base row).length) :
    later.foldl (longer sep base path) (some row) = some row := by
  induction later with
  | nil => rfl
  | cons first rest ih =>
    have hKeep : longer sep base path (some row) first = some row := by
      unfold longer
      rw [if_neg]
      intro hTakes
      obtain ⟨hInside, hLonger⟩ := Bool.and_eq_true_iff.1 hTakes
      have hLt : (base row).length < (base first).length := by simpa using hLonger
      have hLe : (base first).length ≤ (base row).length := hLater first mem_cons_self hInside
      omega
    rw [foldl_cons, hKeep]
    exact ih fun other hMem => hLater other (mem_cons_of_mem _ hMem)

variable {best : Option Row}

private theorem foldl_longer_earlier {earlier : List Row} {length : Nat}
    (hEarlier : ∀ other ∈ earlier, inside sep path (base other) = true → (base other).length < length) (hBest : best.all (fun row' => (base row').length < length) = true) :
    (earlier.foldl (longer sep base path) best).all (fun row' => (base row').length < length) = true := by
  induction earlier generalizing best with
  | nil => exact hBest
  | cons first rest ih =>
    rw [foldl_cons]
    apply ih fun other hMem => hEarlier other (mem_cons_of_mem _ hMem)
    unfold longer
    split
    · rename_i hTakes
      have hLt : (base first).length < length := hEarlier first mem_cons_self (Bool.and_eq_true_iff.1 hTakes).1
      simpa using hLt
    · exact hBest

theorem Wins.longest_eq (h : Wins sep base rows path row) : longest sep base rows path = some row := by
  obtain ⟨earlier, later, hRows, hInside, hEarlier, hLater⟩ := h.split
  unfold longest
  rw [hRows, foldl_append, foldl_cons]
  have hShort := foldl_longer_earlier hEarlier (rfl : (none : Option Row).all _ = true)
  have hTakes : longer sep base path (earlier.foldl (longer sep base path) none) row = some row := by
    unfold longer
    rw [if_pos]
    rw [hInside]
    exact hShort
  rw [hTakes]
  exact foldl_longer_later hLater

private theorem wins_of_foldl (later : List Row) :
    ∀ {earlier : List Row} {best : Option Row}, (∀ row', best = some row' → Wins sep base earlier path row') →
      (best = none → ∀ other ∈ earlier, inside sep path (base other) = false) →
      later.foldl (longer sep base path) best = some row → Wins sep base (earlier ++ later) path row := by
  induction later with
  | nil =>
    intro earlier best hBest hNone hEnd
    rw [append_nil]
    exact hBest row hEnd
  | cons first rest ih =>
    intro earlier best hBest hNone hEnd
    rw [append_cons]
    apply ih _ _ hEnd
    · intro row' hSome
      unfold longer at hSome
      split at hSome
      · rename_i hTakes
        obtain ⟨hInside, hLonger⟩ := Bool.and_eq_true_iff.1 hTakes
        cases hSome
        refine ⟨earlier, [], rfl, hInside, fun other hMem hOther => ?_, nofun⟩
        cases hHad : best with
        | none =>
          rw [hNone hHad other hMem] at hOther
          cases hOther
        | some had =>
          rw [hHad] at hLonger
          have hLt : (base had).length < (base first).length := by simpa using hLonger
          obtain ⟨front, back, hSplit, _, hFront, hBack⟩ := (hBest had hHad).split
          rw [hSplit] at hMem
          rcases mem_append.1 hMem with hIn | hIn
          · exact Nat.lt_trans (hFront other hIn hOther) hLt
          · rcases mem_cons.1 hIn with hEq | hIn
            · exact hEq ▸ hLt
            · exact Nat.lt_of_le_of_lt (hBack other hIn hOther) hLt
      · rename_i hKeeps
        obtain ⟨front, back, hSplit, hBase, hFront, hBack⟩ := (hBest row' hSome).split
        refine ⟨front, back ++ [first], by rw [hSplit]; simp, hBase, hFront, fun other hMem hOther => ?_⟩
        rcases mem_append.1 hMem with hIn | hIn
        · exact hBack other hIn hOther
        · cases mem_singleton.1 hIn
          rw [hSome, hOther] at hKeeps
          simpa using hKeeps
    · intro hStill other hMem
      unfold longer at hStill
      split at hStill
      · cases hStill
      · rename_i hKeeps
        rcases mem_append.1 hMem with hIn | hIn
        · exact hNone hStill other hIn
        · cases mem_singleton.1 hIn
          rw [hStill] at hKeeps
          simpa using hKeeps

theorem wins_of_longest (h : longest sep base rows path = some row) : Wins sep base rows path row :=
  @wins_of_foldl α _ sep Row base path row rows [] none nofun (fun _ _ hMem => nomatch hMem) h

private theorem foldl_longer_eq_none_iff : rows.foldl (longer sep base path) best = none ↔
    best = none ∧ ∀ other ∈ rows, inside sep path (base other) = false := by
  induction rows generalizing best with
  | nil => simp
  | cons first rest ih =>
    rw [foldl_cons, ih, forall_mem_cons, ← and_assoc]
    refine and_congr_left fun _ => ?_
    unfold longer
    cases hInside : inside sep path (base first) with
    | false => simp
    | true =>
      cases best with
      | none => simp
      | some had => split <;> simp

theorem longest_eq_none_iff :
    longest sep base rows path = none ↔ ∀ other ∈ rows, inside sep path (base other) = false := by
  unfold longest
  rw [foldl_longer_eq_none_iff]
  exact ⟨fun h => h.2, fun h => ⟨rfl, h⟩⟩

namespace Wins

variable (h : Wins sep base rows path row)

include h in
theorem mem : row ∈ rows := by
  obtain ⟨earlier, later, hRows, _⟩ := h.split
  rw [hRows]
  simp

include h in
theorem inside : LongestPrefix.inside sep path (base row) = true := by
  obtain ⟨_, _, _, hInside, _⟩ := h.split
  exact hInside

include h in
theorem le {other : Row} (hMem : other ∈ rows)
    (hInside : LongestPrefix.inside sep path (base other) = true) : (base other).length ≤ (base row).length := by
  obtain ⟨earlier, later, hRows, _, hEarlier, hLater⟩ := h.split
  rw [hRows] at hMem
  rcases mem_append.1 hMem with hIn | hIn
  · exact Nat.le_of_lt (hEarlier other hIn hInside)
  · rcases mem_cons.1 hIn with hEq | hIn
    · exact Nat.le_of_eq (by rw [hEq])
    · exact hLater other hIn hInside

include h in
theorem filter {keep : Row → Bool} (hKeep : keep row = true) : Wins sep base (rows.filter keep) path row := by
  obtain ⟨earlier, later, hRows, hInside, hEarlier, hLater⟩ := h.split
  refine ⟨earlier.filter keep, later.filter keep, ?_, hInside, fun other hMem => ?_, fun other hMem => ?_⟩
  · rw [hRows, filter_append, filter_cons_of_pos hKeep]
  · exact hEarlier other (mem_of_mem_filter hMem)
  · exact hLater other (mem_of_mem_filter hMem)

include h in
theorem map {change : Row → Row} (hBase : ∀ other, base (change other) = base other) :
    Wins sep base (rows.map change) path (change row) := by
  obtain ⟨earlier, later, hRows, hInside, hEarlier, hLater⟩ := h.split
  refine ⟨earlier.map change, later.map change, ?_, ?_, fun other hMem => ?_, fun other hMem => ?_⟩
  · rw [hRows, map_append, map_cons]
  · rw [hBase]
    exact hInside
  · obtain ⟨old, hOld, hEq⟩ := mem_map.1 hMem
    rw [← hEq, hBase, hBase]
    exact hEarlier old hOld
  · obtain ⟨old, hOld, hEq⟩ := mem_map.1 hMem
    rw [← hEq, hBase, hBase]
    exact hLater old hOld

variable {new : Row}

include h in
theorem append (hShort : LongestPrefix.inside sep path (base new) = true → (base new).length ≤ (base row).length) :
    Wins sep base (rows ++ [new]) path row := by
  obtain ⟨earlier, later, hRows, hInside, hEarlier, hLater⟩ := h.split
  refine ⟨earlier, later ++ [new], by rw [hRows]; simp, hInside, hEarlier, fun other hMem hOther => ?_⟩
  rcases mem_append.1 hMem with hIn | hIn
  · exact hLater other hIn hOther
  · cases mem_singleton.1 hIn
    exact hShort hOther

theorem of_append (hInside : LongestPrefix.inside sep path (base new) = true)
    (hOthers : ∀ other ∈ rows, LongestPrefix.inside sep path (base other) = true →
      (base other).length < (base new).length) : Wins sep base (rows ++ [new]) path new :=
  ⟨rows, [], rfl, hInside, hOthers, nofun⟩

end Wins

theorem longest_below {root : List α} (hInside : inside sep path root = true)
    (hNone : ∀ other ∈ rows, inside sep path (base other) = true → (base other).length ≤ root.length) :
    longest sep base rows path = longest sep base rows root := by
  have hSame : ∀ other ∈ rows, inside sep path (base other) = inside sep root (base other) := by
    intro other hMem
    cases hRoot : inside sep root (base other) with
    | true => exact inside_trans hInside hRoot
    | false =>
      cases hPath : inside sep path (base other) with
      | false => rfl
      | true =>
        rw [inside_of_inside hInside hPath (hNone other hMem hPath)] at hRoot
        cases hRoot
  have hFold : ∀ best : Option Row, rows.foldl (longer sep base path) best = rows.foldl (longer sep base root) best := by
    clear hNone
    induction rows with
    | nil => exact fun _ => rfl
    | cons first rest ih =>
      intro best
      have hStep : longer sep base path best first = longer sep base root best first := by
        unfold longer
        rw [hSame first mem_cons_self]
      rw [foldl_cons, foldl_cons, hStep]
      exact ih (fun other hMem => hSame other (mem_cons_of_mem _ hMem)) _
  exact hFold none

end

end LongestPrefix
