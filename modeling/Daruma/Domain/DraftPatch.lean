import Daruma.Library.SeparatedPath
import Daruma.Shared.Text
import Mathlib.Data.List.Infix

/-! Draft patches: edits that are anchored by the lines around them, never by a line
number. An exact and only match is applied, or the draft is refused. -/
namespace Daruma

open List

/-- One change: the exact unchanged lines around the lines that it replaces, and the
name of the symbol that encloses it. -/
structure AnchoredEdit where
  symbol : String
  before : List String
  old : List String
  new : List String
  after : List String
  deriving DecidableEq

/-- Edits of one file, applied in order. -/
structure DraftPatch where
  path : String
  edits : List AnchoredEdit

inductive AnchorMismatch where
  | invalidPatch (message : String)
  | pathMismatch (expected actual : String)
  | contextNotFound (edit : Nat)
  | ambiguous (edit matchCount : Nat)
  | symbolNotFound (edit : Nat) (symbol : String)
  deriving DecidableEq

def splitLines (text : String) : List String := (text.toList.splitOn '\n').map String.ofList

def joinLines (lines : List String) : String := String.ofList (['\n'].intercalate (lines.map String.toList))

namespace AnchoredEdit

def validate (i : Nat) (edit : AnchoredEdit) : Except AnchorMismatch Unit :=
  if isBlank edit.symbol then .error (.invalidPatch s!"edit {i}: symbol must not be empty")
  else if edit.before.isEmpty && edit.after.isEmpty then
    .error (.invalidPatch s!"edit {i}: needs context lines before or after")
  else if edit.old = edit.new then .error (.invalidPatch s!"edit {i}: old and new are identical")
  else if [edit.before, edit.old, edit.new, edit.after].any fun lines => lines.any fun line => '\n' ∈ line.toList then
    .error (.invalidPatch s!"edit {i}: a line must not contain a newline")
  else .ok ()

def window (edit : AnchoredEdit) : List String := edit.before ++ edit.old ++ edit.after

def starts (window lines : List String) : List Nat :=
  (List.range (lines.length - window.length + 1)).filter fun s =>
    s + window.length ≤ lines.length && (window.zip (lines.drop s)).all fun (w, l) => w = l

/-- `line.contains(symbol)`. -/
def namesSymbol (edit : AnchoredEdit) (line : String) : Bool := decide (edit.symbol.toList <:+: line.toList)

def applyTo (index : Nat) (edit : AnchoredEdit) (lines : List String) : Except AnchorMismatch (List String) :=
  match starts edit.window lines with
  | [] => .error (.contextNotFound index)
  | [start] =>
    if !(lines.take (start + edit.window.length)).any edit.namesSymbol then
      .error (.symbolNotFound index edit.symbol)
    else
      let oldStart := start + edit.before.length
      .ok (lines.take oldStart ++ edit.new ++ lines.drop (oldStart + edit.old.length))
  | many => .error (.ambiguous index many.length)

end AnchoredEdit

namespace DraftPatch

def validate (patch : DraftPatch) : Except AnchorMismatch Unit := do
  if isBlank patch.path then .error (.invalidPatch "path must not be empty")
  else if patch.edits.isEmpty then .error (.invalidPatch "edits must not be empty")
  else patch.edits.zipIdx.forM fun (edit, i) => edit.validate i

def apply (patch : DraftPatch) (path text : String) : Except AnchorMismatch String := do
  patch.validate
  if path ≠ patch.path then .error (.pathMismatch patch.path path)
  else
    let lines ← patch.edits.zipIdx.foldlM (fun lines (edit, i) => edit.applyTo i lines) (splitLines text)
    pure (joinLines lines)

end DraftPatch

/-- An edit rewrites the only place where its window stands, with its symbol there or
further up. What is around the window stays. -/
def AnchoredEdit.Rewrites (edit : AnchoredEdit) (lines result : List String) : Prop :=
  ∃ head tail, lines = head ++ edit.window ++ tail ∧
    (∀ other rest, lines = other ++ edit.window ++ rest → other = head) ∧
    (∃ line ∈ head ++ edit.window, edit.symbol.toList <:+: line.toList) ∧
    result = head ++ (edit.before ++ edit.new ++ edit.after) ++ tail

/-- Edits one after the other, each of the lines that the ones before it left. -/
inductive Rewritten : List AnchoredEdit → List String → List String → Prop
  | done (lines : List String) : Rewritten [] lines lines
  | next {edit : AnchoredEdit} {edits : List AnchoredEdit} {lines middle result : List String}
      (h : edit.Rewrites lines middle) (rest : Rewritten edits middle result) : Rewritten (edit :: edits) lines result

namespace AnchoredEdit

variable {edit : AnchoredEdit} {lines result window : List String} {index start : Nat}

private theorem all_zip_iff {window lines : List String} (hLength : window.length ≤ lines.length) :
    ((window.zip lines).all fun (w, l) => w = l) = true ↔ window <+: lines := by
  induction window generalizing lines with
  | nil => simp
  | cons first more ih =>
    cases lines with
    | nil => cases hLength
    | cons line rest =>
      rw [zip_cons_cons, all_cons, Bool.and_eq_true, ih (Nat.le_of_succ_le_succ hLength),
        cons_prefix_cons, decide_eq_true_eq]

theorem mem_starts : start ∈ starts window lines ↔ ∃ head tail, lines = head ++ window ++ tail ∧ head.length = start := by
  unfold starts
  rw [mem_filter, mem_range, Bool.and_eq_true, decide_eq_true_eq]
  constructor
  · rintro ⟨-, hFits, hAll⟩
    have hLength : window.length ≤ (lines.drop start).length := by
      rw [length_drop]
      omega
    obtain ⟨tail, hTail⟩ := (all_zip_iff hLength).mp hAll
    refine ⟨lines.take start, tail, ?_, length_take_of_le (by omega)⟩
    rw [append_assoc, hTail, take_append_drop]
  · rintro ⟨head, tail, rfl, rfl⟩
    have hDrop : (head ++ window ++ tail).drop head.length = window ++ tail := by
      rw [append_assoc, drop_left]
    refine ⟨by simp only [length_append]; omega, by simp only [length_append]; omega, ?_⟩
    rw [hDrop, all_zip_iff (by simp)]
    exact prefix_append _ _

theorem nodup_starts (window lines : List String) : (starts window lines).Nodup := nodup_range.filter _

/-- One start alone: the window stands there, and nowhere else. -/
theorem starts_singleton_iff {head tail : List String} (hLines : lines = head ++ window ++ tail) :
    starts window lines = [head.length] ↔ ∀ other rest, lines = other ++ window ++ rest → other = head := by
  have hHere : head.length ∈ starts window lines := mem_starts.mpr ⟨head, tail, hLines, rfl⟩
  constructor
  · intro hOne other rest hOther
    have hStart : other.length ∈ starts window lines := mem_starts.mpr ⟨other, rest, hOther, rfl⟩
    rw [hOne, mem_singleton] at hStart
    rw [hLines, append_assoc, append_assoc] at hOther
    exact (append_inj_left hOther hStart.symm).symm
  · intro hOnly
    have hSame : ∀ s ∈ starts window lines, s = head.length := by
      intro s hMem
      obtain ⟨other, rest, hOther, rfl⟩ := mem_starts.mp hMem
      rw [hOnly other rest hOther]
    have hNodup := nodup_starts window lines
    rw [eq_replicate_of_mem hSame] at hHere hNodup ⊢
    have hFew := nodup_replicate.mp hNodup
    cases hCount : (starts window lines).length with
    | zero => simp [hCount] at hHere
    | succ n =>
      have hZero : n = 0 := by omega
      rw [hZero]
      rfl

theorem applyTo_ok_iff : applyTo index edit lines = .ok result ↔ edit.Rewrites lines result := by
  have hParts : ∀ head tail : List String,
      (head ++ edit.window ++ tail).take (head.length + edit.window.length) = head ++ edit.window ∧
      (head ++ edit.window ++ tail).take (head.length + edit.before.length) = head ++ edit.before ∧
      (head ++ edit.window ++ tail).drop (head.length + edit.before.length + edit.old.length) = edit.after ++ tail := by
    intro head tail
    refine ⟨take_left' length_append, ?_, ?_⟩
    · have hLines : head ++ edit.window ++ tail = (head ++ edit.before) ++ (edit.old ++ edit.after ++ tail) := by
        simp only [window, append_assoc]
      exact hLines ▸ take_left' length_append
    · have hLines : head ++ edit.window ++ tail = (head ++ edit.before ++ edit.old) ++ (edit.after ++ tail) := by
        simp only [window, append_assoc]
      rw [hLines]
      exact drop_left' (by rw [length_append, length_append])
  have hAny : ∀ some : List String, (!some.any edit.namesSymbol) = true ↔
      ¬∃ line ∈ some, edit.symbol.toList <:+: line.toList := by
    intro some
    rw [Bool.not_eq_true', Bool.eq_false_iff, ne_eq, any_eq_true]
    simp only [namesSymbol, decide_eq_true_eq]
  constructor
  · intro h
    unfold applyTo at h
    split at h
    · cases h
    · rename_i start hOne
      obtain ⟨head, tail, hLines, rfl⟩ := mem_starts.mp (hOne ▸ mem_singleton_self start)
      have hOnly := (starts_singleton_iff hLines).mp hOne
      obtain ⟨hSeen, hHead, hTail⟩ := hParts head tail
      dsimp only at h
      rw [hLines, hSeen, hHead, hTail] at h
      split at h
      · cases h
      · rename_i hSymbol
        cases h
        refine ⟨head, tail, hLines, hOnly, not_not.mp fun hNone => hSymbol ((hAny _).mpr hNone), ?_⟩
        simp only [append_assoc]
    · cases h
  · rintro ⟨head, tail, hLines, hOnly, hSymbol, rfl⟩
    obtain ⟨hSeen, hHead, hTail⟩ := hParts head tail
    unfold applyTo
    rw [(starts_singleton_iff hLines).mpr hOnly]
    dsimp only
    rw [hLines, hSeen, hHead, hTail, if_neg fun hNone => (hAny _).mp hNone hSymbol]
    simp only [append_assoc]

end AnchoredEdit

/-- Edits in order apply exactly where each of them rewrites what the ones before it left. -/
theorem rewritten_iff {edits : List AnchoredEdit} {index : Nat} {lines result : List String} :
    (edits.zipIdx index).foldlM (fun lines (edit, i) => AnchoredEdit.applyTo i edit lines) lines =
      (.ok result : Except AnchorMismatch _) ↔ Rewritten edits lines result := by
  induction edits generalizing index lines with
  | nil =>
    constructor
    · intro h
      cases h
      exact .done _
    · rintro ⟨⟩
      rfl
  | cons edit edits ih =>
    simp only [zipIdx_cons, foldlM_cons]
    constructor
    · intro h
      cases hFirst : AnchoredEdit.applyTo index edit lines with
      | error e =>
        rw [hFirst] at h
        cases h
      | ok middle =>
        rw [hFirst] at h
        exact .next (AnchoredEdit.applyTo_ok_iff.mp hFirst) (ih.mp h)
    · rintro (_ | ⟨hFirst, hRest⟩)
      rw [AnchoredEdit.applyTo_ok_iff.mpr hFirst]
      exact ih.mpr hRest

/-- Lines of a text: there is one at least, and none has a newline. -/
def IsSplit (lines : List String) : Prop := lines ≠ [] ∧ ∀ line ∈ lines, '\n' ∉ line.toList

theorem isSplit_splitLines (text : String) : IsSplit (splitLines text) := by
  refine ⟨fun hNone => splitOn_ne_nil '\n' _ (map_eq_nil_iff.mp hNone), fun line hMem => ?_⟩
  obtain ⟨segment, hSegment, rfl⟩ := mem_map.mp hMem
  rw [String.toList_ofList]
  exact SeparatedPath.sep_not_mem_of_mem_splitOn hSegment

theorem splitLines_joinLines {lines : List String} (h : IsSplit lines) : splitLines (joinLines lines) = lines := by
  unfold splitLines joinLines
  rw [String.toList_ofList, splitOn_intercalate '\n' ?_ (by simpa using h.1), map_map]
  · simp [Function.comp_def]
  · intro line hMem
    obtain ⟨before, hBefore, rfl⟩ := mem_map.mp hMem
    exact h.2 before hBefore

/-- What a valid edit has: some context, and new lines without newlines. -/
def AnchoredEdit.Sound (edit : AnchoredEdit) : Prop :=
  (edit.before ≠ [] ∨ edit.after ≠ []) ∧ ∀ line ∈ edit.new, '\n' ∉ line.toList

theorem AnchoredEdit.sound_of_validate {edit : AnchoredEdit} {i : Nat} (h : edit.validate i = .ok ()) : edit.Sound := by
  unfold validate at h
  split_ifs at h with hSymbol hContext hSame hLines
  · exact ⟨by simpa [imp_iff_not_or] using hContext, fun line hMem hNewline =>
      hLines (any_eq_true.mpr ⟨edit.new, by simp, any_eq_true.mpr ⟨line, hMem, decide_eq_true hNewline⟩⟩)⟩

theorem AnchoredEdit.Rewrites.isSplit {edit : AnchoredEdit} {lines result : List String} (h : edit.Rewrites lines result)
    (hSound : edit.Sound) (hLines : IsSplit lines) : IsSplit result := by
  obtain ⟨head, tail, rfl, -, -, rfl⟩ := h
  refine ⟨by rcases hSound.1 with hSome | hSome <;> simp [hSome], fun line hMem => ?_⟩
  simp only [mem_append] at hMem
  have hOld := hLines.2 line
  simp only [window, mem_append] at hOld
  have hNew := hSound.2 line
  tauto

theorem Rewritten.isSplit {edits : List AnchoredEdit} {lines result : List String} (h : Rewritten edits lines result)
    (hSound : ∀ edit ∈ edits, edit.Sound) (hLines : IsSplit lines) : IsSplit result := by
  induction h with
  | done => exact hLines
  | next hFirst _ ih =>
    obtain ⟨hEdit, hMore⟩ := forall_mem_cons.mp hSound
    exact ih hMore (hFirst.isSplit hEdit hLines)

namespace DraftPatch

variable {patch : DraftPatch} {path text out : String}

theorem sound_of_validate (h : patch.validate = .ok ()) : ∀ edit ∈ patch.edits, edit.Sound := by
  have hAll : ∀ (edits : List AnchoredEdit) (index : Nat),
      ((edits.zipIdx index).forM fun (edit, i) => edit.validate i) = .ok () → ∀ edit ∈ edits, edit.Sound := by
    intro edits
    induction edits with
    | nil => exact fun _ _ _ hMem => absurd hMem not_mem_nil
    | cons edit edits ih =>
      intro index hOk
      simp only [zipIdx_cons, List.forM] at hOk
      cases hFirst : edit.validate index with
      | error e =>
        rw [hFirst] at hOk
        cases hOk
      | ok =>
        rw [hFirst] at hOk
        exact forall_mem_cons.mpr ⟨AnchoredEdit.sound_of_validate hFirst, ih _ hOk⟩
  unfold validate at h
  split_ifs at h
  exact hAll _ 0 h

theorem apply_ok_iff : patch.apply path text = .ok out ↔ patch.validate = .ok () ∧ path = patch.path ∧
    ∃ lines, Rewritten patch.edits (splitLines text) lines ∧ out = joinLines lines := by
  unfold apply
  cases hValid : patch.validate with
  | error e => exact iff_of_false (fun h => by cases h) (fun h => by cases h.1)
  | ok =>
    by_cases hPath : path = patch.path
    · simp only [hPath, ne_eq, not_true_eq_false, if_false, true_and, ← @rewritten_iff _ 0]
      cases patch.edits.zipIdx.foldlM (fun lines (edit, i) => AnchoredEdit.applyTo i edit lines) (splitLines text) with
      | error e => exact iff_of_false (fun h => by cases h) (fun ⟨_, h, _⟩ => by cases h)
      | ok lines =>
        constructor
        · intro h
          cases h
          exact ⟨lines, rfl, rfl⟩
        · rintro ⟨_, hLines, rfl⟩
          cases hLines
          rfl
    · exact iff_of_false (fun h => by simp only [ne_eq, hPath, not_false_eq_true, if_true] at h; cases h)
        fun h => hPath h.2.1

/-- A valid patch of this file applies exactly where the edits, in order, each rewrite the
lines that the ones before them left; the patched text has the lines that are left. -/
theorem apply_exact (patch : DraftPatch) (path text : String) :
    ((∃ out, patch.apply path text = .ok out) ↔ patch.validate = .ok () ∧ path = patch.path ∧
      ∃ lines, Rewritten patch.edits (splitLines text) lines) ∧
    ∀ out, patch.apply path text = .ok out → Rewritten patch.edits (splitLines text) (splitLines out) := by
  simp only [apply_ok_iff]
  constructor
  · constructor
    · rintro ⟨out, hValid, hPath, lines, hLines, -⟩
      exact ⟨hValid, hPath, lines, hLines⟩
    · rintro ⟨hValid, hPath, lines, hLines⟩
      exact ⟨joinLines lines, hValid, hPath, lines, hLines, rfl⟩
  · rintro out ⟨hValid, -, lines, hLines, rfl⟩
    rwa [splitLines_joinLines (hLines.isSplit (sound_of_validate hValid) (isSplit_splitLines text))]

theorem symbol_in_window :
    apply ⟨"a.rs", [⟨"fn f", ["x"], [], ["y"], ["fn f"]⟩]⟩ "a.rs" "x\nfn f" = .ok "x\ny\nfn f" ∧
    (splitLines "x\nfn f").take 1 = ["x"] ∧
    apply ⟨"a.rs", []⟩ "a.rs" "x" = .error (.invalidPatch "edits must not be empty") := by
  decide +kernel

end DraftPatch

end Daruma
