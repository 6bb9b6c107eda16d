import Daruma.Library.SeparatedPath
import Daruma.Shared.Text

/-! The canonical form of a client's path, over three families of absolute paths, and the
place it names: a root and the segments below it. -/
namespace Daruma

open List
open SeparatedPath (clean_segments join_cons_cons head_join inside_join join_append)
open LongestPrefix (inside inside_iff)

open SeparatedPath (segments join Clean)

abbrev ScopePath := List Char

def isDrive : ScopePath → Bool
  | [d, ':'] => d.isAlpha
  | _ => false

def asciiUppercase (path : ScopePath) : ScopePath := path.map Char.toUpper

/-- Absolute for any platform: `/x`, `C:\x` or `c:/x`, `\\host\share`. -/
def isAbsoluteScopePath (path : ScopePath) : Bool :=
  match trimChars path with
  | '/' :: _ => true
  | '\\' :: '\\' :: _ => true
  | d :: ':' :: s :: _ => (s = '/' || s = '\\') && d.isAlpha
  | _ => false

def unifySeparators (path : ScopePath) : ScopePath := (trimChars path).map fun c => if c = '\\' then '/' else c

/-- The segments behind what is written so far; `c:` becomes `C:`, so that a drive is one key. -/
def pushSegments (out : ScopePath) : List ScopePath → ScopePath
  | [] => out
  | first :: more =>
    if isDrive first then out ++ asciiUppercase first ++ (if more.isEmpty then [] else ['/']) ++ join '/' more
    else out ++ join '/' (first :: more)

/-- Nothing at all is `/`, and a drive alone stays rooted. -/
def keepRooted (out : ScopePath) : ScopePath :=
  if out.isEmpty then ['/']
  else if out.getLast? = some ':' && isDrive out then out ++ ['/']
  else out

/-- Unified separators, none of them double or at the end; a UNC path keeps its leading two. -/
def normalizeScopePath (path : ScopePath) : ScopePath :=
  let unified := unifySeparators path
  let lead := if ['/', '/'].isPrefixOf unified then ['/', '/'] else []
  let rest := unified.drop lead.length
  let leadingSlash := lead.isEmpty && rest.head? = some '/'
  keepRooted (pushSegments (if leadingSlash then lead ++ ['/'] else lead) (segments '/' rest))

inductive ScopeRoot where
  | posix
  | unc
  | drive (letter : Char)
  deriving DecidableEq

def ScopeRoot.text : ScopeRoot → ScopePath
  | .posix => ['/']
  | .unc => ['/', '/']
  | .drive letter => [letter, ':', '/']

/-- What an absolute path names, however it is spelled. -/
@[ext] structure Location where
  root : ScopeRoot
  segments : List ScopePath
  clean : Clean '/' segments
  letter : ∀ d, root = .drive d → d.isAlpha = true

namespace Location

/-- Of two places the first is the second, or above it. -/
def IsAncestor (base place : Location) : Prop := base.root = place.root ∧ base.segments <+: place.segments

def text (place : Location) : ScopePath := place.root.text ++ join '/' place.segments

/-- `/`, `//`, or a drive. -/
def IsRoot (place : Location) : Prop := place.segments = []

theorem IsAncestor.refl (place : Location) : IsAncestor place place := ⟨rfl, prefix_rfl⟩

variable {base place short long : Location}

theorem IsAncestor.of_length_le (hShort : IsAncestor short place)
    (hLong : IsAncestor long place) (hLength : short.segments.length ≤ long.segments.length) : IsAncestor short long :=
  ⟨hShort.1.trans hLong.1.symm, prefix_of_prefix_length_le hShort.2 hLong.2 hLength⟩

theorem join_eq_nil {segs : List ScopePath} (hClean : Clean '/' segs) : join '/' segs = [] ↔ segs = [] := by
  constructor
  · intro hNone
    rw [← SeparatedPath.segments_join hClean, hNone]
    rfl
  · rintro rfl
    rfl

theorem join_ne_slash (place : Location) (rest : ScopePath) : join '/' place.segments ≠ '/' :: rest := fun hSlash =>
  head_join place.clean '/' (by rw [hSlash]; rfl) rfl

theorem letter_ne_slash {d : Char} (h : d.isAlpha = true) : d ≠ '/' := by
  rintro rfl
  cases h

private theorem inside_root (place base : Location) (hRoot : base.root = place.root) :
    inside '/' place.text base.text = true ↔ (base.IsAncestor place ∧ ¬base.IsRoot) ∨ base = place := by
  unfold text
  rw [hRoot, SeparatedPath.inside_append]
  by_cases hBase : base.segments = []
  · rw [hBase, inside_iff]
    constructor
    · rintro (hSame | ⟨rest, hRest⟩)
      · right
        exact Location.ext hRoot (hBase.trans ((join_eq_nil place.clean).1 hSame).symm)
      · exact absurd hRest (join_ne_slash place rest)
    · rintro (⟨_, hNot⟩ | hSame)
      · exact absurd hBase hNot
      · rw [← hSame, hBase]
        exact .inl rfl
  · rw [inside_join place.clean base.clean hBase]
    constructor
    · exact fun hPrefix => .inl ⟨⟨hRoot, hPrefix⟩, hBase⟩
    · rintro (⟨hAncestor, _⟩ | hSame)
      · exact hAncestor.2
      · exact hSame ▸ prefix_rfl

/-- Under different roots one text is below another only where `/` stands above a UNC path. -/
private theorem inside_other_root (place base : Location) (hRoot : base.root ≠ place.root) :
    inside '/' place.text base.text = true ↔ base.root = .posix ∧ base.IsRoot ∧ place.root = .unc := by
  have hPlaceSlash := join_ne_slash place
  have hBaseSlash := join_ne_slash base
  rw [inside_iff]
  unfold text IsRoot
  cases hBase : base.root with
  | posix =>
    cases hPlace : place.root with
    | posix => exact absurd (hBase.trans hPlace.symm) hRoot
    | unc =>
      rw [← join_eq_nil base.clean]
      cases hText : join '/' base.segments with
      | nil => simp [ScopeRoot.text]
      | cons first rest =>
        have hFirst : '/' ≠ first := by
          rintro rfl
          exact hBaseSlash rest hText
        simp [ScopeRoot.text, hFirst]
    | drive d =>
      have hLetter := letter_ne_slash (place.letter d hPlace)
      simp [ScopeRoot.text, hLetter]
  | unc =>
    cases hPlace : place.root with
    | unc => exact absurd (hBase.trans hPlace.symm) hRoot
    | posix => simp [ScopeRoot.text, hPlaceSlash]
    | drive d =>
      have hLetter := letter_ne_slash (place.letter d hPlace)
      simp [ScopeRoot.text, hLetter]
  | drive d =>
    have hLetter := letter_ne_slash (base.letter d hBase)
    cases hPlace : place.root with
    | drive e =>
      have hOther : e ≠ d := by
        rintro rfl
        exact hRoot (hBase.trans hPlace.symm)
      simp [ScopeRoot.text, hOther]
    | posix => simp [ScopeRoot.text, hLetter.symm]
    | unc => simp [ScopeRoot.text, hLetter.symm]

theorem inside_text (place base : Location) : inside '/' place.text base.text = true ↔
      (base.IsAncestor place ∧ ¬base.IsRoot) ∨ base = place ∨
        (base.root = .posix ∧ base.IsRoot ∧ place.root = .unc) := by
  by_cases hRoot : base.root = place.root
  · rw [inside_root place base hRoot, ← or_assoc]
    constructor
    · exact .inl
    · rintro (hInside | ⟨hPosix, _, hUnc⟩)
      · exact hInside
      · rw [hPosix, hUnc] at hRoot
        cases hRoot
  · rw [inside_other_root place base hRoot]
    constructor
    · exact fun hSlash => .inr (.inr hSlash)
    · rintro (⟨hAncestor, _⟩ | hSame | hSlash)
      · exact absurd hAncestor.1 hRoot
      · exact absurd (congrArg root hSame) hRoot
      · exact hSlash

theorem text_eq_slash (place : Location) : place.text = ['/'] ↔ place.root = .posix ∧ place.IsRoot := by
  rw [IsRoot, ← join_eq_nil place.clean]
  unfold text
  cases hRoot : place.root <;> simp [ScopeRoot.text]

theorem one_lt_length_text (h : ¬(place.root = .posix ∧ place.IsRoot)) : 1 < place.text.length := by
  rw [IsRoot, ← join_eq_nil place.clean] at h
  have hJoin : place.root = .posix → 0 < (join '/' place.segments).length := fun hPosix =>
    length_pos_iff.2 fun hNone => h ⟨hPosix, hNone⟩
  unfold text
  rw [length_append]
  cases hRoot : place.root with
  | posix =>
    have hSome := hJoin hRoot
    simp only [ScopeRoot.text, length_singleton]
    omega
  | unc | drive =>
    simp only [ScopeRoot.text, length_cons, length_nil]
    omega

theorem length_text_lt (h : IsAncestor short long) (hOther : short ≠ long) :
    short.text.length < long.text.length := by
  obtain ⟨hRoot, more, hMore⟩ := h
  have hSome : more ≠ [] := by
    rintro rfl
    rw [append_nil] at hMore
    exact hOther (Location.ext hRoot hMore)
  unfold text
  rw [hRoot, ← hMore]
  by_cases hShort : short.segments = []
  · have hClean : Clean '/' more := by
      have hLong := long.clean
      rw [← hMore, hShort] at hLong
      exact hLong
    have hPos : 0 < (join '/' more).length :=
      length_pos_iff.2 fun hNone => hSome ((join_eq_nil hClean).1 hNone)
    rw [hShort]
    simpa using hPos
  · rw [join_append hShort hSome]
    simp

end Location

/-- A first segment that reads as a drive has no case. -/
def upperDrive : List ScopePath → List ScopePath
  | [] => []
  | first :: more => (if isDrive first then asciiUppercase first else first) :: more

/-- The root and the segments of a path with unified separators. -/
def rootOf : ScopePath → ScopeRoot
  | '/' :: '/' :: _ => .unc
  | '/' :: _ => .posix
  | d :: ':' :: '/' :: _ => if d.isAlpha then .drive d.toUpper else .posix
  | _ => .posix

def scopeSegments : ScopePath → List ScopePath
  | '/' :: '/' :: rest => upperDrive (segments '/' rest)
  | '/' :: rest => upperDrive (segments '/' rest)
  | _ :: ':' :: '/' :: rest => segments '/' rest
  | _ => []

theorem isDrive_iff {segment : ScopePath} : isDrive segment = true ↔ ∃ d, segment = [d, ':'] ∧ d.isAlpha = true := by
  constructor
  · intro hDrive
    unfold isDrive at hDrive
    split at hDrive
    · rename_i d
      exact ⟨d, rfl, hDrive⟩
    · cases hDrive
  · rintro ⟨d, rfl, hAlpha⟩
    exact hAlpha

variable {d : Char} {path : ScopePath}

theorem isAlpha_toUpper (h : d.isAlpha = true) : d.toUpper.isAlpha = true := by
  unfold Char.toUpper Char.isAlpha Char.isUpper Char.isLower at *
  simp
  grind

theorem clean_upperDrive {segs : List ScopePath} (h : Clean '/' segs) : Clean '/' (upperDrive segs) := by
  cases segs with
  | nil => exact h
  | cons first more =>
    intro segment hMem
    rcases mem_cons.1 hMem with hFirst | hMore
    · split at hFirst
      · rename_i hDrive
        obtain ⟨d, rfl, hAlpha⟩ := isDrive_iff.1 hDrive
        have hLetter := Location.letter_ne_slash (isAlpha_toUpper hAlpha)
        rw [hFirst]
        simp [asciiUppercase, hLetter.symm]
      · exact hFirst ▸ h first mem_cons_self
    · exact h segment (mem_cons_of_mem _ hMore)

theorem clean_scopeSegments (unified : ScopePath) : Clean '/' (scopeSegments unified) := by
  unfold scopeSegments
  split
  · exact clean_upperDrive (clean_segments _)
  · exact clean_upperDrive (clean_segments _)
  · exact clean_segments _
  · exact nofun

theorem letter_rootOf (unified : ScopePath) (d : Char) (h : rootOf unified = .drive d) : d.isAlpha = true := by
  unfold rootOf at h
  split at h
  · cases h
  · cases h
  · split at h
    · rename_i hAlpha
      cases h
      exact isAlpha_toUpper hAlpha
    · cases h
  · cases h

/-- The place that an absolute path names. -/
def location (path : ScopePath) : Location where
  root := rootOf (unifySeparators path)
  segments := scopeSegments (unifySeparators path)
  clean := clean_scopeSegments _
  letter := letter_rootOf _

theorem unified_of_absolute (h : isAbsoluteScopePath path = true) :
    (∃ rest, unifySeparators path = '/' :: '/' :: rest) ∨
      (∃ rest, unifySeparators path = '/' :: rest ∧ ∀ more, rest ≠ '/' :: more) ∨
      (∃ d rest, unifySeparators path = d :: ':' :: '/' :: rest ∧ d.isAlpha = true) := by
  have hSlash : ∀ rest, unifySeparators path = '/' :: rest → (∃ rest, unifySeparators path = '/' :: '/' :: rest) ∨
      ∃ rest, unifySeparators path = '/' :: rest ∧ ∀ more, rest ≠ '/' :: more := by
    intro rest hRest
    by_cases hMore : ∃ more, rest = '/' :: more
    · obtain ⟨more, rfl⟩ := hMore
      exact .inl ⟨more, hRest⟩
    · exact .inr ⟨rest, hRest, fun more hSame => hMore ⟨more, hSame⟩⟩
  unfold isAbsoluteScopePath at h
  split at h
  · rename_i rest hTrimmed
    rw [← or_assoc]
    refine .inl (hSlash (rest.map fun c => if c = '\\' then '/' else c) ?_)
    simp [unifySeparators, hTrimmed]
  · rename_i rest hTrimmed
    exact .inl ⟨rest.map fun c => if c = '\\' then '/' else c, by simp [unifySeparators, hTrimmed]⟩
  · rename_i d s rest _ hTrimmed
    obtain ⟨hSeparator, hAlpha⟩ := Bool.and_eq_true_iff.1 h
    refine .inr (.inr ⟨d, rest.map fun c => if c = '\\' then '/' else c, ?_, hAlpha⟩)
    have hLetter : d ≠ '\\' := by
      rintro rfl
      cases hAlpha
    have hUnified : (if s = '\\' then '/' else s) = '/' := by
      split
      · rfl
      · rename_i hOther
        simpa [hOther] using hSeparator
    simp [unifySeparators, hTrimmed, hLetter, hUnified]
  · cases h

theorem not_isDrive_of_slash (rest : ScopePath) : isDrive ('/' :: rest) = false := by
  cases hDrive : isDrive ('/' :: rest) with
  | false => rfl
  | true =>
    obtain ⟨d, hSame, hAlpha⟩ := isDrive_iff.1 hDrive
    cases hSame
    cases hAlpha

theorem pushSegments_eq (out : ScopePath) (segs : List ScopePath) :
    pushSegments out segs = out ++ join '/' (upperDrive segs) := by
  cases segs with
  | nil => exact (append_nil _).symm
  | cons first more =>
    rw [pushSegments, upperDrive]
    split
    · cases more with
      | nil => simp
      | cons second others => simp [join_cons_cons]
    · rfl

theorem keepRooted_of_slash (rest : ScopePath) : keepRooted ('/' :: rest) = '/' :: rest := by
  simp [keepRooted, not_isDrive_of_slash]

theorem keepRooted_drive (hAlpha : d.isAlpha = true) (segs : List ScopePath) :
    keepRooted (join '/' ([d, ':'] :: segs)) = d :: ':' :: '/' :: join '/' segs := by
  cases segs with
  | nil => simp [keepRooted, isDrive, hAlpha]
  | cons first more => simp [keepRooted, isDrive, join_cons_cons]

theorem normalizeScopePath_eq_text (h : isAbsoluteScopePath path = true) :
    normalizeScopePath path = (location path).text := by
  unfold normalizeScopePath location Location.text
  simp only [pushSegments_eq]
  rcases unified_of_absolute h with ⟨rest, hUnified⟩ | ⟨rest, hUnified, hOther⟩ | ⟨d, rest, hUnified, hAlpha⟩
  · have hLead : ['/', '/'].isPrefixOf ('/' :: '/' :: rest) = true := rfl
    simp [hUnified, hLead, ScopeRoot.text, rootOf, scopeSegments, keepRooted_of_slash]
  · have hLead : ['/', '/'].isPrefixOf ('/' :: rest) = false := by
      cases rest with
      | nil => rfl
      | cons first more =>
        have hFirst : ('/' == first) = false := beq_eq_false_iff_ne.2 fun hSame => hOther more (by rw [← hSame])
        rw [isPrefixOf_cons_cons, isPrefixOf_cons_cons, hFirst, Bool.false_and, Bool.and_false]
    have hRoot : rootOf ('/' :: rest) = .posix := by
      unfold rootOf
      split
      · rename_i more hMore
        exact absurd (List.cons.inj hMore).2 (hOther more)
      · rfl
      · rename_i hNot hSame
        exact absurd (List.cons.inj hSame).1.symm hNot
      · rfl
    have hSegments : scopeSegments ('/' :: rest) = upperDrive (segments '/' rest) := by
      unfold scopeSegments
      split
      · rename_i more hMore
        exact absurd (List.cons.inj hMore).2 (hOther more)
      · rename_i more _ hSame
        rw [(List.cons.inj hSame).2]
      · rename_i hNot hSame
        exact absurd (List.cons.inj hSame).1.symm hNot
      · rename_i hNot _
        exact absurd rfl (hNot rest)
    simp [hUnified, hLead, ScopeRoot.text, hRoot, hSegments, keepRooted_of_slash, SeparatedPath.segments_cons_sep]
  · have hLetter := Location.letter_ne_slash hAlpha
    have hLead : ['/', '/'].isPrefixOf (d :: ':' :: '/' :: rest) = false := by
      rw [isPrefixOf_cons_cons, beq_eq_false_iff_ne.2 hLetter.symm, Bool.false_and]
    have hSegments : segments '/' (d :: ':' :: '/' :: rest) = [d, ':'] :: segments '/' rest :=
      @SeparatedPath.segments_append_sep _ _ '/' [d, ':'] (cons_ne_nil _ _) (by simp [hLetter.symm]) rest
    have hRoot : rootOf (d :: ':' :: '/' :: rest) = .drive d.toUpper := by
      unfold rootOf
      split <;> simp_all
    have hBelow : scopeSegments (d :: ':' :: '/' :: rest) = segments '/' rest := by
      unfold scopeSegments
      split <;> simp_all
    have hUpper : upperDrive ([d, ':'] :: segments '/' rest) = [d.toUpper, ':'] :: segments '/' rest := by
      simp [upperDrive, isDrive, hAlpha, asciiUppercase]
    simp [hUnified, hLead, hSegments, hUpper, hRoot, hBelow, ScopeRoot.text, hLetter, keepRooted_drive (isAlpha_toUpper hAlpha)]

theorem Location.text_injective {place other : Location} (h : place.text = other.text) : place = other := by
  have hInside : inside '/' place.text other.text = true := by
    rw [h, inside_iff]
    exact .inl rfl
  rcases (inside_text place other).1 hInside with ⟨hAbove, _⟩ | hSame | ⟨hPosix, hRoot, hUnc⟩
  · by_contra hOther
    have hShorter := length_text_lt hAbove (Ne.symm hOther)
    rw [h] at hShorter
    exact Nat.lt_irrefl _ hShorter
  · exact hSame.symm
  · have hSlash := h.trans ((text_eq_slash other).2 ⟨hPosix, hRoot⟩)
    rw [((text_eq_slash place).1 hSlash).1] at hUnc
    cases hUnc

/-- Absolute paths get one key exactly when they name one place, however they are spelled. -/
theorem normalizeScopePath_eq_iff {path other : ScopePath} (h : isAbsoluteScopePath path = true)
    (hOther : isAbsoluteScopePath other = true) :
    normalizeScopePath path = normalizeScopePath other ↔ location path = location other := by
  rw [normalizeScopePath_eq_text h, normalizeScopePath_eq_text hOther]
  exact ⟨Location.text_injective, congrArg Location.text⟩

theorem normalizeScopePath_of_drive :
    normalizeScopePath "c:\\Repo\\".toList = normalizeScopePath "C://Repo".toList :=
  (normalizeScopePath_eq_iff (by decide) (by decide)).2 (Location.ext (by decide) (by decide))

end Daruma
