import Daruma.Mcp.ScopeView

/-! Which project a path resolves to: the one bound nearest above it, except for bindings
of a whole root, which their view does not find. A binding is found under the path it was
stored for, unless that path changes when it is normalised again. -/
namespace Daruma

open List
open LongestPrefix (Wins inside wins_of_longest inside_self longest_eq_none_iff inside_iff)
open ScopeBinding (base)
open RepoScopes (mem_list)

namespace ScopeView

open Location (IsAncestor IsRoot)

variable {scopes : List ScopeBinding} {place : Location} {row : ScopeBinding}

/-- A binding of the place or of an ancestor, and none is nearer. -/
structure Nearest (scopes : List ScopeBinding) (place : Location) (row : ScopeBinding) : Prop where
  mem : row ∈ scopes
  above : row.place.IsAncestor place
  nearest : ∀ other ∈ scopes, other.place.IsAncestor place → other.place.segments.length ≤ row.place.segments.length

/-- The answer for a place: the project that is bound nearest, or nothing where nothing is. -/
def Resolves (scopes : List ScopeBinding) (place : Location) : Option ProjectId → Prop
  | some project => ∃ row, Nearest scopes place row ∧ row.project = project
  | none => ∀ row ∈ scopes, ¬row.place.IsAncestor place

def Resolved (view : ScopeView) (path : ScopePath) : Prop :=
  ∃ answer, view.projectForPath path = .ok answer ∧ Resolves view.scopes (location path) answer

def Absolute (scopes : List ScopeBinding) : Prop := ∀ row ∈ scopes, isAbsoluteScopePath row.scopePath = true

def lastPosixRoot (scopes : List ScopeBinding) : Option ScopeBinding :=
  (scopes.filter fun row => row.base = ['/']).getLast?

/-- A binding below a root or of the place itself applies; or no binding applies, and the
place is no UNC path below a binding of `/`; or that binding names by chance the project
that is bound to the UNC root. -/
def BelowRoots (scopes : List ScopeBinding) (place : Location) : Prop :=
  (∃ row ∈ scopes, row.place.IsAncestor place ∧ ¬row.place.IsRoot) ∨ (∃ row ∈ scopes, row.place = place) ∨
    ((∀ row ∈ scopes, ¬row.place.IsAncestor place) ∧ ¬(place.root = .unc ∧ ∃ row ∈ scopes, row.base = ['/'])) ∨
    (place.root = .unc ∧ ∃ row ∈ scopes, row.place.root = .unc ∧ row.place.IsRoot ∧
      ∃ last, lastPosixRoot scopes = some last ∧ last.project = row.project)

theorem base_eq_text (hAbsolute : Absolute scopes) (hMem : row ∈ scopes) : row.base = row.place.text :=
  normalizeScopePath_eq_text (hAbsolute row hMem)

theorem base_eq_slash (hAbsolute : Absolute scopes) (hMem : row ∈ scopes) :
    row.base = ['/'] ↔ row.place.root = .posix ∧ row.place.IsRoot := by
  rw [base_eq_text hAbsolute hMem, Location.text_eq_slash]

/-- Which bindings a view takes for ones above a path. -/
theorem inside_base (hAbsolute : Absolute scopes) (hMem : row ∈ scopes) :
    inside '/' place.text row.base = true ↔
      (row.place.IsAncestor place ∧ ¬row.place.IsRoot) ∨ row.place = place ∨ (row.base = ['/'] ∧ place.root = .unc) := by
  rw [base_eq_slash hAbsolute hMem, base_eq_text hAbsolute hMem, Location.inside_text, and_assoc]

theorem nearest_of_wins (hAbsolute : Absolute scopes)
    (hWins : Wins '/' base scopes.reverse place.text row) (hAbove : row.place.IsAncestor place) :
    Nearest scopes place row where
  mem := mem_reverse.1 hWins.mem
  above := hAbove
  nearest other hOther hOtherAbove := by
    by_contra hFarther
    have hMem := mem_reverse.1 hWins.mem
    have hBelow : row.place.IsAncestor other.place := hAbove.of_length_le hOtherAbove (by omega)
    have hNotRoot : ¬other.place.IsRoot := fun hRoot => by
      rw [Location.IsRoot] at hRoot
      rw [hRoot] at hFarther
      exact hFarther (Nat.zero_le _)
    have hInside := (inside_base hAbsolute hOther).2 (.inl ⟨hOtherAbove, hNotRoot⟩)
    have hLe := hWins.le (mem_reverse.2 hOther) hInside
    rw [base_eq_text hAbsolute hOther, base_eq_text hAbsolute hMem] at hLe
    have hLt := Location.length_text_lt hBelow fun hSame => hFarther (Nat.le_of_eq (by rw [hSame]))
    omega

variable {other : ScopeBinding}

theorem above_of_wins (hAbsolute : Absolute scopes) (hWins : Wins '/' base scopes.reverse place.text row)
    (hOther : other ∈ scopes) (hInside : inside '/' place.text other.base = true) (hNotSlash : other.base ≠ ['/']) :
    row.place.IsAncestor place := by
  have hMem := mem_reverse.1 hWins.mem
  rcases (inside_base hAbsolute hMem).1 hWins.inside with ⟨hAbove, _⟩ | hSame | ⟨hSlash, _⟩
  · exact hAbove
  · exact hSame ▸ IsAncestor.refl _
  · have hLe := hWins.le (mem_reverse.2 hOther) hInside
    have hLong := Location.one_lt_length_text fun hRoot => hNotSlash ((base_eq_slash hAbsolute hOther).2 hRoot)
    rw [hSlash, base_eq_text hAbsolute hOther, length_singleton] at hLe
    omega

theorem lastPosixRoot_of_wins (hAbsolute : Absolute scopes)
    (hWins : Wins '/' base scopes.reverse place.text row) (hSlash : row.base = ['/'])
    (hUnc : place.root = .unc) : lastPosixRoot scopes = some row := by
  obtain ⟨later, earlier, hSplit, _, hLater, _⟩ := hWins.split
  have hScopes : scopes = earlier.reverse ++ row :: later.reverse := by
    have hReverse := congrArg List.reverse hSplit
    simpa using hReverse
  have hNone : later.reverse.filter (fun row => row.base = ['/']) = [] := by
    rw [filter_eq_nil_iff]
    intro other hOther hOtherSlash
    have hBase : other.base = ['/'] := of_decide_eq_true hOtherSlash
    have hMem : other ∈ scopes := by
      rw [hScopes]
      exact mem_append_right _ (mem_cons_of_mem _ hOther)
    have hLt := hLater other (mem_reverse.1 hOther) ((inside_base hAbsolute hMem).2 (.inr (.inr ⟨hBase, hUnc⟩)))
    rw [hBase, hSlash] at hLt
    exact Nat.lt_irrefl _ hLt
  have hKeep : (row :: later.reverse).filter (fun row => row.base = ['/']) = [row] := by
    rw [filter_cons_of_pos (by simpa using hSlash), hNone]
  unfold lastPosixRoot
  rw [hScopes, filter_append, hKeep, getLast?_append]
  rfl

theorem mem_of_lastPosixRoot (h : lastPosixRoot scopes = some row) : row ∈ scopes ∧ row.base = ['/'] := by
  have hMem := mem_filter.1 (mem_of_getLast? h)
  exact ⟨hMem.1, of_decide_eq_true hMem.2⟩

variable {view : ScopeView} {path : ScopePath} {project : ProjectId}

theorem resolvePath_eq (hPath : isAbsoluteScopePath path = true) :
    view.resolvePath path = .ok (location path).text := by
  have hTrimmed : isAbsoluteScopePath (trimChars path) = true := by
    unfold isAbsoluteScopePath at hPath ⊢
    rw [trimChars_idem]
    exact hPath
  have hPlace : location (trimChars path) = location path := by
    unfold location unifySeparators
    simp only [trimChars_idem]
  unfold resolvePath
  simp only [hTrimmed, if_true, normalizeScopePath_eq_text hTrimmed, hPlace]

theorem projectForPath_eq (hPath : isAbsoluteScopePath path = true) :
    view.projectForPath path = .ok ((longest view.scopes (location path).text).map ScopeBinding.project) := by
  unfold projectForPath
  rw [resolvePath_eq hPath]
  rfl

theorem resolves_iff (hAbsolute : Absolute scopes) :
    Resolves scopes place ((longest scopes place.text).map ScopeBinding.project) ↔ BelowRoots scopes place := by
  unfold longest
  cases hLongest : LongestPrefix.longest '/' base scopes.reverse place.text with
  | none =>
    have hNone : ∀ other ∈ scopes, inside '/' place.text other.base = false := fun other hOther =>
      longest_eq_none_iff.1 hLongest other (mem_reverse.2 hOther)
    have hNotInside : ∀ other ∈ scopes, ¬((other.place.IsAncestor place ∧ ¬other.place.IsRoot) ∨ other.place = place ∨
        (other.base = ['/'] ∧ place.root = .unc)) := by
      intro other hOther
      rw [← inside_base hAbsolute hOther, hNone other hOther]
      exact Bool.false_ne_true
    constructor
    · intro hNothing
      refine .inr (.inr (.inl ⟨hNothing, ?_⟩))
      rintro ⟨hUnc, other, hOther, hSlash⟩
      exact hNotInside other hOther (.inr (.inr ⟨hSlash, hUnc⟩))
    · rintro (⟨other, hOther, hAbove⟩ | ⟨other, hOther, hSame⟩ | ⟨hNothing, _⟩ | ⟨hUnc, _, _, _, _, last, hLast, _⟩)
      · exact absurd (.inl hAbove) (hNotInside other hOther)
      · exact absurd (.inr (.inl hSame)) (hNotInside other hOther)
      · exact hNothing
      · obtain ⟨hMem, hSlash⟩ := mem_of_lastPosixRoot hLast
        exact absurd (.inr (.inr ⟨hSlash, hUnc⟩)) (hNotInside last hMem)
  | some row =>
    have hWins := wins_of_longest hLongest
    have hMem : row ∈ scopes := mem_reverse.1 hWins.mem
    have hOfAbove : row.place.IsAncestor place → Resolves scopes place (some row.project) := fun hAbove =>
      ⟨row, nearest_of_wins hAbsolute hWins hAbove, rfl⟩
    constructor
    · rintro ⟨near, hNear, hProject⟩
      rcases (inside_base hAbsolute hMem).1 hWins.inside with hAbove | hSame | ⟨hSlash, hUnc⟩
      · exact .inl ⟨row, hMem, hAbove⟩
      · exact .inr (.inl ⟨row, hMem, hSame⟩)
      · by_cases hRoot : near.place.IsRoot
        · exact .inr (.inr (.inr ⟨hUnc, near, hNear.mem, hNear.above.1.trans hUnc, hRoot, row,
            lastPosixRoot_of_wins hAbsolute hWins hSlash hUnc, hProject.symm⟩))
        · exact .inl ⟨near, hNear.mem, hNear.above, hRoot⟩
    · intro hBelow
      rcases (inside_base hAbsolute hMem).1 hWins.inside with ⟨hAbove, _⟩ | hSame | ⟨hSlash, hUnc⟩
      · exact hOfAbove hAbove
      · exact hOfAbove (hSame ▸ IsAncestor.refl _)
      rcases hBelow with ⟨other, hOther, hAbove, hRoot⟩ | ⟨other, hOther, hSame⟩ | ⟨_, hNoSlash⟩ |
        ⟨_, near, hNear, hNearUnc, hNearRoot, last, hLast, hProject⟩
      · exact hOfAbove (above_of_wins hAbsolute hWins hOther ((inside_base hAbsolute hOther).2 (.inl ⟨hAbove, hRoot⟩))
          fun hOtherSlash => hRoot ((base_eq_slash hAbsolute hOther).1 hOtherSlash).2)
      · refine hOfAbove (above_of_wins hAbsolute hWins hOther ((inside_base hAbsolute hOther).2 (.inr (.inl hSame))) ?_)
        intro hOtherSlash
        have hPosix := ((base_eq_slash hAbsolute hOther).1 hOtherSlash).1
        rw [hSame, hUnc] at hPosix
        cases hPosix
      · exact absurd ⟨hUnc, row, hMem, hSlash⟩ hNoSlash
      · rw [lastPosixRoot_of_wins hAbsolute hWins hSlash hUnc, Option.some.injEq] at hLast
        refine ⟨near, ⟨hNear, ⟨hNearUnc.trans hUnc.symm, ?_⟩, fun other hOther hAbove => ?_⟩, hLast ▸ hProject.symm⟩
        · rw [hNearRoot]
          exact nil_prefix
        · by_cases hRoot : other.place.IsRoot
          · rw [Location.IsRoot] at hRoot
            rw [hRoot]
            exact Nat.zero_le _
          · -- A binding below a root would have been found instead of `/`.
            have hRowAbove := above_of_wins hAbsolute hWins hOther ((inside_base hAbsolute hOther).2 (.inl ⟨hAbove, hRoot⟩))
              fun hOtherSlash => hRoot ((base_eq_slash hAbsolute hOther).1 hOtherSlash).2
            have hPosix := ((base_eq_slash hAbsolute hMem).1 hSlash).1
            rw [hRowAbove.1, hUnc] at hPosix
            cases hPosix

/-- The row that a view finds above a text: a longest one, and the last of these. -/
abbrev Finds (scopes : List ScopeBinding) (path : ScopePath) (row : ScopeBinding) : Prop :=
  Wins '/' base scopes.reverse path row

/-- A path is found again. Its canonical form is one that normalising leaves alone, and the
last row for it in another spelling that is listed after the new one, if there is such a
row, is bound to the same project. A canonical form that changes again ends in white
space; the binding is then stored for another path, and which row is found is chance. -/
def FoundAgain (scopes scopes' : RepoScopes) (path : ScopePath) (project : ProjectId) : Prop :=
  if normalizeScopePath path = path then
    ∀ row ∈ scopes, row.base = path → path < row.scopePath →
      (∀ other ∈ scopes, other.base = path → other.scopePath ≤ row.scopePath) → row.project = project
  else ∃ row, Finds scopes'.list path row ∧ row.project = project

theorem longest_project_iff :
    (longest scopes path).map ScopeBinding.project = some project ↔ ∃ row, Finds scopes path row ∧ row.project = project := by
  rw [Option.map_eq_some_iff]
  exact exists_congr fun row => and_congr_left fun _ =>
    ⟨fun hLongest => wins_of_longest hLongest, fun hWins => hWins.longest_eq⟩

theorem le_of_finds {scopes : RepoScopes} (hFinds : Finds scopes.list path row)
    (hBase : row.base = path) (hOther : other ∈ scopes) (hOtherBase : other.base = path) :
    other.scopePath ≤ row.scopePath := by
  obtain ⟨later, earlier, hSplit, _, hLater, _⟩ := hFinds.split
  have hList : scopes.list = earlier.reverse ++ row :: later.reverse := by
    have hReverse := congrArg List.reverse hSplit
    simpa using hReverse
  have hSorted := scopes.list_sorted
  rw [hList, pairwise_append] at hSorted
  have hMem := mem_list.2 hOther
  rw [hList, mem_append, mem_cons, mem_reverse, mem_reverse] at hMem
  rcases hMem with hEarlier | hSame | hAfter
  · exact hSorted.2.2 other (mem_reverse.2 hEarlier) row mem_cons_self
  · exact hSame ▸ le_refl _
  · have hLt := hLater other hAfter (by rw [hOtherBase]; exact inside_self _)
    rw [hOtherBase, hBase] at hLt
    exact absurd hLt (Nat.lt_irrefl _)

theorem base_of_finds (hFinds : Finds scopes path row) {own : ScopeBinding} (hOwn : own ∈ scopes)
    (hOwnBase : own.base = path) : row.base = path := by
  have hLe := hFinds.le (mem_reverse.2 hOwn) (by rw [hOwnBase]; exact inside_self _)
  rcases inside_iff.1 hFinds.inside with hSame | ⟨rest, hRest⟩
  · exact hSame.symm
  · have hLength := congrArg List.length hRest
    rw [hOwnBase] at hLe
    simp only [length_append, length_cons] at hLength
    omega

theorem foundAgain_iff {scopes scopes' : RepoScopes} {known : ProjectId → Bool}
    (hPut : scopes.putRepoScope known path (some project) = .ok scopes') :
    (longest scopes'.list path).map ScopeBinding.project = some project ↔ FoundAgain scopes scopes' path project := by
  rw [longest_project_iff]
  unfold FoundAgain
  split
  · rename_i hFixed
    have hScopes := RepoScopes.putRepoScope_some hPut
    rw [hFixed] at hScopes
    have hMem : ∀ row, row ∈ scopes' ↔ row = ⟨path, project⟩ ∨ (row ∈ scopes ∧ row.scopePath ≠ path) := by
      intro row
      rw [hScopes, KeyedTable.mem_insertOrReplace]
    have hNew : (⟨path, project⟩ : ScopeBinding) ∈ scopes' := (hMem _).2 (.inl rfl)
    have hNewBase : (⟨path, project⟩ : ScopeBinding).base = path := hFixed
    constructor
    · rintro ⟨row, hFinds, hProject⟩ last hLast hLastBase hAfter hGreatest
      have hRowBase := base_of_finds hFinds (mem_list.2 hNew) hNewBase
      have hRowMem : row ∈ scopes' := mem_list.1 (mem_reverse.1 hFinds.mem)
      have hLastMem : last ∈ scopes' := (hMem last).2 (.inr ⟨hLast, fun hSame => lt_irrefl _ (hSame ▸ hAfter)⟩)
      have hLe := le_of_finds hFinds hRowBase hLastMem hLastBase
      rcases (hMem row).1 hRowMem with hSame | ⟨hOld, _⟩
      · rw [hSame] at hLe
        exact absurd hAfter (not_lt.2 hLe)
      · have hKey := le_antisymm (hGreatest row hOld hRowBase) hLe
        rw [scopes.eq_of_key_eq hLast hOld hKey.symm]
        exact hProject
    · intro hShadow
      cases hLongest : LongestPrefix.longest '/' base scopes'.list.reverse path with
      | none =>
        have hNot := longest_eq_none_iff.1 hLongest _ (mem_reverse.2 (mem_list.2 hNew))
        rw [hNewBase, inside_self] at hNot
        cases hNot
      | some row =>
        have hFinds := wins_of_longest hLongest
        have hRowBase := base_of_finds hFinds (mem_list.2 hNew) hNewBase
        have hRowMem : row ∈ scopes' := mem_list.1 (mem_reverse.1 hFinds.mem)
        refine ⟨row, hFinds, ?_⟩
        rcases (hMem row).1 hRowMem with hSame | ⟨hOld, hOther⟩
        · rw [hSame]
        · have hAfter := le_of_finds hFinds hRowBase hNew hNewBase
          refine hShadow row hOld hRowBase ?_ fun other hIn hBase => ?_
          · by_contra hNot
            exact hOther (le_antisymm (not_lt.1 hNot) hAfter)
          · by_cases hSame : other.scopePath = path
            · rw [hSame]
              exact hAfter
            · exact le_of_finds hFinds hRowBase ((hMem other).2 (.inr ⟨hIn, hSame⟩)) hBase
  · rfl

private def repoProject : ProjectId := ⟨1⟩

private def driveRoot : ScopePath := ['C', ':', '/']

private def drivePath : ScopePath := ['c', ':', '\\', 'r']

private def driveView : ScopeView := ⟨none, [⟨driveRoot, repoProject⟩]⟩

private def spacedPath : ScopePath := ['/', 'a', ' ', '/']

private def noScopes : RepoScopes := KeyedTable.empty

private def spacedScopes : RepoScopes := noScopes.insertOrReplace ⟨['/', 'a'], repoProject⟩

private def repoPath : ScopePath := ['/', 'a']

end ScopeView
end Daruma
