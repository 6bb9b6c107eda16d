import Daruma.Library.LongestPrefix

/-! Texts that are sequences of segments with a separator between them. A path of clean
segments is below another as text exactly when it extends it segment by segment. -/
namespace SeparatedPath

open List

open LongestPrefix (inside inside_iff)

variable {α : Type} [DecidableEq α] {sep : α}

def segments (sep : α) (text : List α) : List (List α) := (text.splitOn sep).filter fun segment => !segment.isEmpty

def join (sep : α) (segments : List (List α)) : List α := [sep].intercalate segments

/-- Segments that a text can have. -/
def Clean (sep : α) (segments : List (List α)) : Prop := ∀ segment ∈ segments, segment ≠ [] ∧ sep ∉ segment

theorem sep_not_mem_of_mem_splitOn {text segment : List α} (h : segment ∈ text.splitOn sep) : sep ∉ segment := by
  induction text generalizing segment with
  | nil =>
    rw [splitOn_nil, mem_singleton] at h
    rw [h]
    exact not_mem_nil
  | cons first rest ih =>
    rw [splitOn_cons_eq_if_modifyHead] at h
    split at h
    · rcases mem_cons.1 h with hEmpty | hLater
      · rw [hEmpty]
        exact not_mem_nil
      · exact ih hLater
    · rename_i hOther
      cases hSplit : rest.splitOn sep with
      | nil => exact absurd hSplit (splitOn_ne_nil _ _)
      | cons head tail =>
        rw [hSplit, modifyHead_cons, mem_cons] at h
        rcases h with hHead | hTail
        · have hIn : sep ∉ head := ih (by rw [hSplit]; exact mem_cons_self)
          rw [hHead, mem_cons, not_or]
          exact ⟨fun hSame => hOther (by rw [hSame]; exact BEq.refl _), hIn⟩
        · exact ih (by rw [hSplit]; exact mem_cons_of_mem _ hTail)

theorem clean_segments (text : List α) : Clean sep (segments sep text) := by
  intro segment hMem
  obtain ⟨hSplit, hKept⟩ := mem_filter.1 hMem
  exact ⟨by simpa using hKept, sep_not_mem_of_mem_splitOn hSplit⟩

variable {segs base : List (List α)}

theorem splitOn_join (hClean : Clean sep segs) (hSome : segs ≠ []) :
    (join sep segs).splitOn sep = segs :=
  splitOn_intercalate sep (fun segment hMem => (hClean segment hMem).2) hSome

theorem filter_clean (hClean : Clean sep segs) :
    segs.filter (fun segment => !segment.isEmpty) = segs :=
  filter_eq_self.2 fun segment hMem => by simpa using (hClean segment hMem).1

theorem segments_join (hClean : Clean sep segs) : segments sep (join sep segs) = segs := by
  by_cases hSome : segs = []
  · rw [hSome]
    rfl
  · unfold segments
    rw [splitOn_join hClean hSome, filter_clean hClean]

@[simp] theorem segments_nil : segments sep ([] : List α) = [] := rfl

theorem segments_cons_sep (text : List α) : segments sep (sep :: text) = segments sep text := by
  unfold segments
  rw [splitOn_cons_eq_if_modifyHead, if_pos (BEq.refl sep)]
  rfl

theorem segments_append_sep {first : List α} (hSome : first ≠ []) (hNone : sep ∉ first) (text : List α) :
    segments sep (first ++ sep :: text) = first :: segments sep text := by
  unfold segments
  rw [splitOn_append_cons_self_of_not_mem hNone]
  exact filter_cons_of_pos (by simpa using hSome)

@[simp] theorem join_nil : join sep ([] : List (List α)) = [] := rfl

@[simp] theorem join_singleton (segment : List α) : join sep [segment] = segment := intercalate_singleton

theorem join_cons_cons (first second : List α) (more : List (List α)) :
    join sep (first :: second :: more) = first ++ sep :: join sep (second :: more) := by
  unfold join
  rw [intercalate_cons_cons, append_assoc, singleton_append]

theorem join_append {more : List (List α)} (hBase : base ≠ []) (hMore : more ≠ []) :
    join sep (base ++ more) = join sep base ++ sep :: join sep more := by
  induction base with
  | nil => exact absurd rfl hBase
  | cons first rest ih =>
    cases rest with
    | nil =>
      obtain ⟨second, others, rfl⟩ := exists_cons_of_ne_nil hMore
      rw [singleton_append, join_cons_cons, join_singleton]
    | cons second others =>
      have hRest := ih (cons_ne_nil _ _)
      rw [cons_append] at hRest
      rw [cons_append, cons_append, join_cons_cons, hRest, join_cons_cons, append_assoc, cons_append]

theorem head_join (hClean : Clean sep segs) : ∀ c ∈ (join sep segs).head?, c ≠ sep := by
  intro c hHead
  cases segs with
  | nil => cases hHead
  | cons first rest =>
    obtain ⟨hSome, hNone⟩ := hClean first mem_cons_self
    cases first with
    | nil => exact absurd rfl hSome
    | cons letter letters =>
      have hJoin : (join sep ((letter :: letters) :: rest)).head? = some letter := by
        cases rest with
        | nil => rw [join_singleton, head?_cons]
        | cons second others => rw [join_cons_cons, cons_append, head?_cons]
      rw [hJoin, Option.mem_def, Option.some.injEq] at hHead
      rintro rfl
      exact hNone (hHead ▸ mem_cons_self)

theorem join_sublist {kept segs : List (List α)} (h : kept.Sublist segs) : (join sep kept).Sublist (join sep segs) := by
  induction h with
  | slnil => exact List.Sublist.refl _
  | @cons kept segs segment hRest ih =>
    cases segs with
    | nil =>
      rw [sublist_nil.mp hRest]
      exact nil_sublist _
    | cons second more =>
      rw [join_cons_cons]
      exact ih.trans ((sublist_cons_self _ _).trans (sublist_append_right _ _))
  | @cons_cons kept segs segment hRest ih =>
    cases kept with
    | nil =>
      rw [join_singleton]
      cases segs with
      | nil => rw [join_singleton]
      | cons second more => exact join_cons_cons segment second more ▸ sublist_append_left _ _
    | cons third others =>
      cases segs with
      | nil => cases hRest
      | cons second more =>
        rw [join_cons_cons, join_cons_cons]
        exact (List.Sublist.refl _).append (ih.cons_cons sep)

theorem head?_join {segs : List (List α)} (hClean : Clean sep segs) :
    (join sep segs).head? = segs.head?.bind head? := by
  cases segs with
  | nil => rfl
  | cons first rest =>
    obtain ⟨letter, letters, rfl⟩ := exists_cons_of_ne_nil (hClean first mem_cons_self).1
    cases rest with
    | nil => rw [join_singleton]; rfl
    | cons second others => rw [join_cons_cons]; rfl

theorem getLast?_join {segs : List (List α)} (hClean : Clean sep segs) :
    (join sep segs).getLast? = segs.getLast?.bind getLast? := by
  induction segs with
  | nil => rfl
  | cons first rest ih =>
    cases rest with
    | nil => rw [join_singleton]; rfl
    | cons second others =>
      have hRest := ih fun segment hMem => hClean segment (mem_cons_of_mem _ hMem)
      have hSome : join sep (second :: others) ≠ [] := by
        intro hNone
        have hHead := head?_join fun segment hMem => hClean segment (mem_cons_of_mem first hMem)
        rw [hNone, head?_cons, Option.bind_some, head?_nil, eq_comm, head?_eq_none_iff] at hHead
        exact (hClean second (by simp)).1 hHead
      rw [join_cons_cons, getLast?_append_of_ne_nil _ (cons_ne_nil _ _), getLast?_cons_of_ne_nil hSome,
        hRest, getLast?_cons_cons]

theorem inside_join {path : List (List α)} (hPath : Clean sep path) (hBase : Clean sep base) (hSome : base ≠ []) :
    inside sep (join sep path) (join sep base) = true ↔ base <+: path := by
  rw [inside_iff]
  constructor
  · rintro (hSame | ⟨rest, hRest⟩)
    · have hEqual : path = base := by rw [← segments_join hPath, ← segments_join hBase, hSame]
      exact hEqual ▸ prefix_rfl
    · have hPathSome : path ≠ [] := by
        rintro rfl
        have hLength := congrArg List.length hRest
        simp [join] at hLength
      refine ⟨rest.splitOn sep, ?_⟩
      have hSplit := congrArg (List.splitOn sep) hRest
      rw [splitOn_append_cons_self, splitOn_join hPath hPathSome, splitOn_join hBase hSome] at hSplit
      exact hSplit.symm
  · rintro ⟨more, hMore⟩
    by_cases hNone : more = []
    · rw [hNone, append_nil] at hMore
      exact .inl (by rw [hMore])
    · exact .inr ⟨join sep more, by rw [← hMore, join_append hSome hNone]⟩

/-- What both texts start with does not matter. -/
theorem inside_append (root path base : List α) : inside sep (root ++ path) (root ++ base) = inside sep path base := by
  rw [Bool.eq_iff_iff, inside_iff, inside_iff]
  simp only [append_assoc, append_right_inj]

end SeparatedPath
