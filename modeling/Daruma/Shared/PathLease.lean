import Daruma.Library.SeparatedPath
import Daruma.Shared.Text

/-! Overlap of leased paths. A path is compared segment by segment; a segment is
what stands between two slashes. -/
namespace Daruma

open List

private def segmentsOf (chars : List Char) : List (List Char) :=
  (chars.splitOn '/').filter fun segment => !segment.isEmpty && segment ≠ ['.']

/-- Unify separators, drop `.` and empty segments. Case is preserved. -/
def normalizeLeasePath (p : String) : String :=
  let unified := (trimChars p.toList).map fun c => if c = '\\' then '/' else c
  String.ofList (List.intercalate ['/'] (segmentsOf unified))

private def star : List Char := ['*']

private def doubleStar : List Char := ['*', '*']

def segmentMatch (x y : List Char) : Bool :=
  x = y || x = star || y = star

/-- An ancestor overlaps its descendants, and `**` swallows the remainder of
either side. -/
def overlapSegments : List (List Char) → List (List Char) → Bool
  | [], _ => true
  | _ :: _, [] => true
  | headA :: tailA, headB :: tailB =>
    if headA = doubleStar || headB = doubleStar then true
    else if !segmentMatch headA headB then false
    else overlapSegments tailA tailB

/-- Two path globs reserve overlapping areas of the tree. An empty path is the
whole repository. -/
def pathsOverlap (a b : String) : Bool :=
  let na := (normalizeLeasePath a).toList
  let nb := (normalizeLeasePath b).toList
  if na.isEmpty || nb.isEmpty then true
  else overlapSegments (na.splitOn '/') (nb.splitOn '/')

theorem segmentMatch_comm (x y : List Char) : segmentMatch x y = segmentMatch y x := by
  rw [Bool.eq_iff_iff]
  simp only [segmentMatch, Bool.or_eq_true, decide_eq_true_eq]
  constructor <;> rintro ((h | h) | h) <;> simp [h]

theorem overlapSegments_comm (a b : List (List Char)) : overlapSegments a b = overlapSegments b a := by
  induction a generalizing b with
  | nil => cases b <;> rfl
  | cons headA tailA ih =>
    cases b with
    | nil => rfl
    | cons headB tailB =>
      rw [overlapSegments, overlapSegments, ih, segmentMatch_comm, Bool.or_comm]

theorem pathsOverlap_comm (a b : String) : pathsOverlap a b = pathsOverlap b a := by
  simp only [pathsOverlap, overlapSegments_comm, Bool.or_comm]

open SeparatedPath (Clean join segments)

/-- A file or directory below the root of a repository. -/
structure ConcretePath where
  segments : List (List Char)
  clean : Clean '/' segments
  direct : ['.'] ∉ segments
  below : segments ≠ []

/-- A pattern covers what lies below it. `*` stands for one segment, and `**` for all
that follow. -/
inductive Covers : List (List Char) → List (List Char) → Prop
  | scope (path : List (List Char)) : Covers [] path
  | rest (pattern path : List (List Char)) : Covers (doubleStar :: pattern) path
  | any {pattern path : List (List Char)} (segment : List Char) (h : Covers pattern path) :
      Covers (star :: pattern) (segment :: path)
  | same {pattern path : List (List Char)} (segment : List Char) (h : Covers pattern path) :
      Covers (segment :: pattern) (segment :: path)

/-- The segments of a leased pattern; the whole repository has none. -/
def leasePattern (p : String) : List (List Char) :=
  segmentsOf ((trimChars p.toList).map fun c => if c = '\\' then '/' else c)

theorem Covers.append (pattern more : List (List Char)) : Covers pattern (pattern ++ more) := by
  induction pattern with
  | nil => exact .scope more
  | cons head tail ih => exact .same head ih

theorem Covers.overlap {a b path : List (List Char)} (hA : Covers a path) (hB : Covers b path) :
    overlapSegments a b = true := by
  induction hA generalizing b with
  | scope => rfl
  | rest =>
    cases b with
    | nil => rfl
    | cons => simp [overlapSegments]
  | any segment _ ih =>
    cases hB with
    | scope => rfl
    | rest => simp [overlapSegments]
    | any _ h | same _ h => simp [overlapSegments, segmentMatch, ih h]
  | same segment _ ih =>
    cases hB with
    | scope => rfl
    | rest => simp [overlapSegments]
    | any _ h | same _ h => simp [overlapSegments, segmentMatch, ih h]

theorem exists_covered {a b : List (List Char)} (h : overlapSegments a b = true) :
    ∃ path, Covers a path ∧ Covers b path ∧ ∀ segment ∈ path, segment ∈ a ∨ segment ∈ b := by
  induction a, b using overlapSegments.induct with
  | case1 b => exact ⟨b, .scope b, by simpa using Covers.append b [], fun _ => .inr⟩
  | case2 head tail => exact ⟨head :: tail, by simpa using Covers.append (head :: tail) [], .scope _, fun _ => .inl⟩
  | case3 headA tailA headB tailB hStar =>
    rcases by simpa using hStar with rfl | rfl
    · exact ⟨headB :: tailB, .rest _ _, by simpa using Covers.append (headB :: tailB) [], fun _ => .inr⟩
    · exact ⟨headA :: tailA, by simpa using Covers.append (headA :: tailA) [], .rest _ _, fun _ => .inl⟩
  | case4 headA tailA headB tailB hStar hMatch =>
    rw [overlapSegments, if_neg hStar, if_pos hMatch] at h
    cases h
  | case5 headA tailA headB tailB hStar hMatch ih =>
    rw [overlapSegments, if_neg hStar, if_neg hMatch] at h
    obtain ⟨path, hA, hB, hFrom⟩ := ih h
    have hTail : ∀ segment ∈ path, segment ∈ headA :: tailA ∨ segment ∈ headB :: tailB := fun segment hMem =>
      (hFrom segment hMem).imp (mem_cons_of_mem _) (mem_cons_of_mem _)
    have hHeads : segmentMatch headA headB = true := by simpa using hMatch
    rcases by simpa [segmentMatch, or_assoc] using hHeads with rfl | rfl | rfl
    · exact ⟨headA :: path, .same _ hA, .same _ hB, forall_mem_cons.mpr ⟨.inl mem_cons_self, hTail⟩⟩
    · exact ⟨headB :: path, .any _ hA, .same _ hB, forall_mem_cons.mpr ⟨.inr mem_cons_self, hTail⟩⟩
    · exact ⟨headA :: path, .same _ hA, .any _ hB, forall_mem_cons.mpr ⟨.inl mem_cons_self, hTail⟩⟩

theorem Covers.extend {pattern path : List (List Char)} (h : Covers pattern path) (more : List (List Char)) :
    Covers pattern (path ++ more) := by
  induction h with
  | scope path => exact .scope _
  | rest pattern path => exact .rest _ _
  | any segment _ ih => exact .any segment ih
  | same segment _ ih => exact .same segment ih

theorem mem_leasePattern {p : String} {segment : List Char} (h : segment ∈ leasePattern p) :
    (segment ≠ [] ∧ '/' ∉ segment) ∧ segment ≠ ['.'] := by
  obtain ⟨hSplit, hKept⟩ := mem_filter.mp h
  obtain ⟨hSome, hDirect⟩ := by simpa using hKept
  exact ⟨⟨hSome, SeparatedPath.sep_not_mem_of_mem_splitOn hSplit⟩, hDirect⟩

theorem clean_leasePattern (p : String) : Clean '/' (leasePattern p) := fun _ h => (mem_leasePattern h).1

theorem toList_normalizeLeasePath (p : String) : (normalizeLeasePath p).toList = join '/' (leasePattern p) := by
  rw [normalizeLeasePath, String.toList_ofList]
  rfl

theorem pathsOverlap_eq (a b : String) : pathsOverlap a b = overlapSegments (leasePattern a) (leasePattern b) := by
  have hSplit : ∀ p, (join '/' (leasePattern p)).isEmpty = false → (join '/' (leasePattern p)).splitOn '/' = leasePattern p := by
    intro p hSome
    refine SeparatedPath.splitOn_join (clean_leasePattern p) fun hNone => ?_
    rw [hNone] at hSome
    cases hSome
  have hNone : ∀ p, (join '/' (leasePattern p)).isEmpty = true → leasePattern p = [] := by
    intro p hEmpty
    rw [← SeparatedPath.segments_join (clean_leasePattern p), isEmpty_iff.mp hEmpty]
    rfl
  simp only [pathsOverlap, toList_normalizeLeasePath]
  cases hA : (join '/' (leasePattern a)).isEmpty with
  | true => rw [hNone a hA, Bool.true_or, if_pos rfl, overlapSegments]
  | false =>
    cases hB : (join '/' (leasePattern b)).isEmpty with
    | true => rw [hNone b hB, Bool.or_true, if_pos rfl, overlapSegments_comm, overlapSegments]
    | false => rw [hSplit a hA, hSplit b hB, Bool.or_false, if_neg Bool.false_ne_true]

theorem overlap_exact (a b : String) :
    (pathsOverlap a b = true ↔
      ∃ path : ConcretePath, Covers (leasePattern a) path.segments ∧ Covers (leasePattern b) path.segments) ∧
    pathsOverlap a b = pathsOverlap b a := by
  refine ⟨?_, pathsOverlap_comm a b⟩
  rw [pathsOverlap_eq]
  constructor
  · intro h
    obtain ⟨path, hA, hB, hFrom⟩ := exists_covered h
    have hOwn : ∀ segment ∈ path ++ [['x']], (segment ≠ [] ∧ '/' ∉ segment) ∧ segment ≠ ['.'] := by
      intro segment hMem
      rcases mem_append.mp hMem with hMem | hMem
      · exact (hFrom segment hMem).elim mem_leasePattern mem_leasePattern
      · rw [mem_singleton.mp hMem]
        decide
    exact ⟨⟨path ++ [['x']], fun segment hMem => (hOwn segment hMem).1, fun hMem => (hOwn _ hMem).2 rfl, by simp⟩,
      hA.extend _, hB.extend _⟩
  · rintro ⟨path, hA, hB⟩
    exact hA.overlap hB

/-- Neither end of the outer segments is white space. -/
def Unpadded (segments : List (List Char)) : Prop :=
  (∀ c ∈ segments.head?.bind List.head?, isWhiteSpace c = false) ∧
    ∀ c ∈ segments.getLast?.bind List.getLast?, isWhiteSpace c = false

theorem normalizeLeasePath_eq (p : String) : normalizeLeasePath p = String.ofList (join '/' (leasePattern p)) := rfl

theorem trimChars_normalizeLeasePath_iff (p : String) :
    trimChars (normalizeLeasePath p).toList = (normalizeLeasePath p).toList ↔ Unpadded (leasePattern p) := by
  rw [trimChars_eq_self_iff, toList_normalizeLeasePath, SeparatedPath.head?_join (clean_leasePattern p),
    SeparatedPath.getLast?_join (clean_leasePattern p)]
  rfl

/-- A normal form is what is left of the trimmed path, with one kind of separator. -/
theorem normalizeLeasePath_sublist (p : String) :
    (normalizeLeasePath p).toList.Sublist ((trimChars p.toList).map fun c => if c = '\\' then '/' else c) := by
  have hKept : (join '/' (leasePattern p)).Sublist (join '/' (List.splitOn '/' _)) :=
    SeparatedPath.join_sublist filter_sublist
  rw [toList_normalizeLeasePath]
  rwa [join, join, intercalate_splitOn] at hKept

theorem leasePattern_normalizeLeasePath {p : String}
    (h : trimChars (normalizeLeasePath p).toList = (normalizeLeasePath p).toList) :
    leasePattern (normalizeLeasePath p) = leasePattern p := by
  have hUnified : ∀ c ∈ (normalizeLeasePath p).toList, (if c = '\\' then '/' else c) = c := by
    intro c hMem
    obtain ⟨before, -, rfl⟩ := mem_map.mp ((normalizeLeasePath_sublist p).subset hMem)
    by_cases hBack : before = '\\' <;> simp [hBack]
  have hKept : ∀ segment ∈ leasePattern p, (!segment.isEmpty && segment ≠ ['.']) = true := fun segment hMem =>
    (mem_filter.mp hMem).2
  rw [leasePattern, h, map_congr_left hUnified, map_id', segmentsOf, toList_normalizeLeasePath]
  by_cases hNone : leasePattern p = []
  · rw [hNone]
    rfl
  · rw [SeparatedPath.splitOn_join (clean_leasePattern p) hNone, filter_eq_self.mpr hKept]

theorem normalizeLeasePath_idem_iff (p : String) :
    normalizeLeasePath (normalizeLeasePath p) = normalizeLeasePath p ↔ Unpadded (leasePattern p) := by
  rw [← trimChars_normalizeLeasePath_iff]
  constructor
  · intro h
    have hLength := (normalizeLeasePath_sublist (normalizeLeasePath p)).length_le
    rw [h, length_map] at hLength
    exact (trimChars_sublist _).eq_of_length_le hLength
  · intro h
    rw [normalizeLeasePath_eq (normalizeLeasePath p), leasePattern_normalizeLeasePath h, ← normalizeLeasePath_eq]

example : pathsOverlap "crates/*/mod.rs" "./crates//core/mod.rs" = true := by decide

end Daruma
