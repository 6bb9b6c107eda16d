import Mathlib.Init

/-! The string operations of the source that validation and normalisation use. -/
namespace Daruma

open List

/-- The Unicode `White_Space` property, which `str::trim` strips. -/
def isWhiteSpace (c : Char) : Bool :=
  let n := c.toNat
  (9 ≤ n && n ≤ 13) || n == 32 || n == 0x85 || n == 0xA0 || n == 0x1680 ||
    (0x2000 ≤ n && n ≤ 0x200A) || n == 0x2028 || n == 0x2029 || n == 0x202F || n == 0x205F ||
    n == 0x3000

def isControl (c : Char) : Bool :=
  let n := c.toNat
  n < 32 || (127 ≤ n && n < 160)

def trimChars (chars : List Char) : List Char :=
  ((chars.dropWhile isWhiteSpace).reverse.dropWhile isWhiteSpace).reverse

def trim (s : String) : String :=
  String.ofList (trimChars s.toList)

def isBlank (s : String) : Bool :=
  (trimChars s.toList).isEmpty

private theorem dropWhile_reverse_dropWhile (p : Char → Bool) (chars : List Char)
    (h : ∀ c ∈ chars.head?, p c = false) : ∀ c ∈ ((chars.reverse.dropWhile p).reverse).head?, p c = false := by
  intro c hc
  cases hKept : (chars.reverse.dropWhile p).reverse with
  | nil => simp [hKept] at hc
  | cons first rest =>
    rw [hKept, head?_cons, Option.mem_def, Option.some.injEq] at hc
    subst hc
    have hSuffix : chars.reverse.dropWhile p <:+ chars.reverse := dropWhile_suffix p
    have hStart : (chars.reverse.dropWhile p).reverse <+: chars := by
      simpa using reverse_prefix.mpr hSuffix
    rw [hKept] at hStart
    obtain ⟨tail, rfl⟩ := hStart
    exact h first (by simp)

private theorem dropWhile_eq_self_of_head? (p : Char → Bool) (chars : List Char)
    (h : ∀ c ∈ chars.head?, p c = false) : chars.dropWhile p = chars := by
  cases chars with
  | nil => rfl
  | cons first rest => simp [h first (by simp)]

private theorem head?_dropWhile (p : Char → Bool) (chars : List Char) :
    ∀ c ∈ (chars.dropWhile p).head?, p c = false := by
  intro c hc
  have h := head?_dropWhile_not p chars
  rw [Option.mem_def] at hc
  simpa [hc] using h

/-- Trimming twice is trimming once. -/
theorem trimChars_idem (chars : List Char) : trimChars (trimChars chars) = trimChars chars := by
  unfold trimChars
  have hHead := head?_dropWhile isWhiteSpace chars
  have hStart := dropWhile_reverse_dropWhile isWhiteSpace (chars.dropWhile isWhiteSpace) hHead
  rw [dropWhile_eq_self_of_head? _ _ hStart, reverse_reverse]
  congr 1
  exact dropWhile_eq_self_of_head? _ _ (head?_dropWhile _ _)

theorem trimChars_eq_self_iff (chars : List Char) : trimChars chars = chars ↔
    (∀ c ∈ chars.head?, isWhiteSpace c = false) ∧ ∀ c ∈ chars.getLast?, isWhiteSpace c = false := by
  constructor
  · intro h
    rw [← h]
    refine ⟨dropWhile_reverse_dropWhile _ _ (head?_dropWhile _ _), ?_⟩
    unfold trimChars
    rw [getLast?_reverse]
    exact head?_dropWhile _ _
  · rintro ⟨hFirst, hLast⟩
    unfold trimChars
    rw [dropWhile_eq_self_of_head? _ _ hFirst, dropWhile_eq_self_of_head? _ _ (by rwa [head?_reverse]),
      reverse_reverse]

theorem trimChars_sublist (chars : List Char) : (trimChars chars).Sublist chars := by
  have hEnd := reverse_sublist.mpr ((chars.dropWhile isWhiteSpace).reverse.dropWhile_sublist isWhiteSpace)
  rw [reverse_reverse] at hEnd
  exact hEnd.trans (dropWhile_sublist _)

theorem toLower_cases (c : Char) :
    c.toLower = c ∨ 65 ≤ c.toNat ∧ c.toNat ≤ 90 ∧ c.toLower.toNat = c.toNat + 32 := by
  by_cases hUpper : c.val ≥ 'A'.val ∧ c.val ≤ 'Z'.val
  · have hLow : 65 ≤ c.toNat := UInt32.le_iff_toNat_le.mp hUpper.1
    have hHigh : c.toNat ≤ 90 := UInt32.le_iff_toNat_le.mp hUpper.2
    refine .inr ⟨hLow, hHigh, ?_⟩
    unfold Char.toLower
    rw [dif_pos hUpper]
    have hSum : (c.val + ('a'.val - 'A'.val)).toNat = (c.toNat + 32) % 2 ^ 32 := UInt32.toNat_add _ _
    exact hSum.trans (Nat.mod_eq_of_lt (by omega))
  · exact .inl (by unfold Char.toLower; rw [dif_neg hUpper])

theorem toLower_eq_iff {c sign : Char} (hSign : sign.toNat < 65 ∨ 90 < sign.toNat ∧ sign.toNat < 97) :
    c.toLower = sign ↔ c = sign := by
  rcases toLower_cases c with hSame | ⟨hLow, _, hMoved⟩
  · rw [hSame]
  · constructor <;> rintro rfl <;> omega

@[simp] theorem toLower_toLower (c : Char) : c.toLower.toLower = c.toLower := by
  rcases toLower_cases c.toLower with hSame | ⟨hLow, hHigh, _⟩
  · exact hSame
  · rcases toLower_cases c with hSame | ⟨_, _, hMoved⟩
    · rw [hSame, hSame]
    · omega

theorem isWhiteSpace_toLower (c : Char) : isWhiteSpace c.toLower = isWhiteSpace c := by
  rcases toLower_cases c with hSame | ⟨hLow, hHigh, hMoved⟩
  · rw [hSame]
  · have hWord : ∀ d : Char, 65 ≤ d.toNat → d.toNat ≤ 122 → isWhiteSpace d = false := by
      intro d _ _
      simp only [isWhiteSpace, Bool.or_eq_false_iff, Bool.and_eq_false_iff, decide_eq_false_iff_not, beq_eq_false_iff_ne]
      omega
    rw [hWord c hLow (by omega), hWord c.toLower (by omega) (by omega)]

def toAsciiLowercase (s : String) : String :=
  String.ofList (s.toList.map Char.toLower)

/-- `str::split_once`, at the first occurrence of the separator. -/
def splitOnceChars (separator : List Char) : List Char → Option (List Char × List Char)
  | [] => if separator.isEmpty then some ([], []) else none
  | c :: rest =>
    if separator.isPrefixOf (c :: rest) then some ([], (c :: rest).drop separator.length)
    else (splitOnceChars separator rest).map fun parts => (c :: parts.1, parts.2)

def stripPrefix (start s : String) : Option String :=
  if start.toList.isPrefixOf s.toList then some (String.ofList (s.toList.drop start.toList.length))
  else none

/-- `str::trim_end_matches` of one character. -/
def trimEndChars (c : Char) (chars : List Char) : List Char :=
  (chars.reverse.dropWhile (· = c)).reverse

def byteLength (s : String) : Nat :=
  s.utf8ByteSize

def charCount (s : String) : Nat :=
  s.toList.length

end Daruma
