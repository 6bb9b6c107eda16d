import Daruma.Domain.Plan
import Daruma.Library.SeparatedPath
import Mathlib.Data.List.DropRight

/-! References to the sources of plans: their normal form, and the nodes of the
source graph. -/
namespace Daruma

open List

/-- The longest accepted reference, in characters. -/
def sourceRefMaxLen : Nat := 2048

/-- The most nodes that a chain may hold, and the bound of every traversal. -/
def sourceChainMax : Nat := 32

private def utf8Bytes (chars : List Char) : List UInt8 :=
  chars.flatMap String.utf8EncodeChar

private def hexValue (b : UInt8) : Option Nat :=
  let n := b.toNat
  if 48 ≤ n ∧ n ≤ 57 then some (n - 48)
  else if 65 ≤ n ∧ n ≤ 70 then some (n - 55)
  else if 97 ≤ n ∧ n ≤ 102 then some (n - 87)
  else none

/-- `u8::from_str_radix` of two bytes in base 16. A plus sign may come first. -/
private def hexPair (high low : UInt8) : Option UInt8 :=
  match hexValue high, hexValue low with
  | some h, some l => some (UInt8.ofNat (16 * h + l))
  | none, some l => if high = 43 then some (UInt8.ofNat l) else none
  | _, none => none

/-- Decode the escapes of a name. Malformed ones stay as written. -/
def percentDecode : List UInt8 → List UInt8
  | [] => []
  | 37 :: high :: low :: rest =>
    match hexPair high low with
    | some b => b :: percentDecode rest
    | none => 37 :: percentDecode (high :: low :: rest)
  | b :: rest => b :: percentDecode rest

private def asciiLowerByte (b : UInt8) : UInt8 :=
  if 65 ≤ b.toNat ∧ b.toNat ≤ 90 then b + 32 else b

/-- The parameters that carry credentials. -/
def secretQueryParams : List String :=
  ["token", "private_token", "access_token", "api_key", "apikey", "sig", "signature", "password",
    "secret"]

/-- A parameter is kept when it has a name that is no secret's. -/
def keptParam (param : List Char) : Bool :=
  let name := percentDecode (utf8Bytes (param.takeWhile (· ≠ '=')))
  !name.isEmpty && !secretQueryParams.any fun secret =>
    name.map asciiLowerByte = utf8Bytes secret.toList

/-- Drop the secret parameters. Nothing when none is left. -/
def stripSecretParams (params : List Char) : Option (List Char) :=
  let kept := (params.splitOn '&').filter keptParam
  if kept.isEmpty then none else some (['&'].intercalate kept)

private def isSchemeChar (c : Char) : Bool :=
  c.isAlphanum || c = '+' || c = '.' || c = '-'

private def validScheme (s : List Char) : Bool :=
  let scheme := s.takeWhile (· ≠ ':')
  ':' ∈ s && (scheme.head?.any Char.isAlpha) && scheme.all isSchemeChar

/-- `split_once` at a character; the second part is absent when it does not occur. -/
private def cutAt (c : Char) (chars : List Char) : List Char × Option (List Char) :=
  if c ∈ chars then (chars.takeWhile (· ≠ c), some ((chars.dropWhile (· ≠ c)).drop 1)) else (chars, none)

/-- `rsplit_once` at a character. -/
private def cutAtLast (c : Char) (chars : List Char) : Option (List Char × List Char) :=
  match cutAt c chars.reverse with
  | (_, none) => none
  | (after, some before) => some (before.reverse, after.reverse)

private def stripSuffix (finish chars : List Char) : List Char :=
  if finish.isSuffixOf chars then chars.take (chars.length - finish.length) else chars

private def validHost (hostPort : List Char) : Bool :=
  let bareIpv6 := hostPort.head? ≠ some '[' && 1 < hostPort.count ':'
  !bareIpv6 &&
    match cutAtLast ':' hostPort with
    | some (host, port) =>
      if hostPort.getLast? ≠ some ']' then !host.isEmpty && !port.isEmpty && port.all Char.isDigit
      else true
    | none => !hostPort.isEmpty

private def filterPart (part : List Char) : List Char :=
  if '=' ∈ part then (stripSecretParams part).getD [] else part

private def filterFragment (fragment : List Char) : List Char :=
  match cutAt '?' fragment with
  | (route, some params) =>
    match stripSecretParams params with
    | some params => filterPart route ++ ['?'] ++ params
    | none => filterPart route
  | (route, none) => filterPart route

private def lowerChars (chars : List Char) : List Char := chars.map Char.toLower

/-- The part of a web reference after its scheme, without credentials. -/
private def normalizeWeb (s lower rest : List Char) : Except String (List Char) :=
  match rest with
  | '/' :: '/' :: after =>
    let isEnd := fun c => c = '/' || c = '?' || c = '#'
    let authority := after.takeWhile fun c => !isEnd c
    let (beforeFragment, fragment) := cutAt '#' (after.dropWhile fun c => !isEnd c)
    let (path, query) := cutAt '?' beforeFragment
    let hostPort := match cutAtLast '@' authority with
      | some (_, host) => host
      | none => authority
    let defaultPort := if lower = "http".toList then ":80".toList else ":443".toList
    let hostPort := stripSuffix defaultPort hostPort
    if !validHost hostPort then .error s!"source_ref `{String.ofList s}` has no valid host"
    else
      let query := match query.bind stripSecretParams with
        | some params => '?' :: params
        | none => []
      let fragment := match (fragment.map filterFragment).filter fun f => !f.isEmpty with
        | some f => '#' :: f
        | none => []
      .ok (lower ++ "://".toList ++ lowerChars hostPort ++ trimEndChars '/' path ++ query ++ fragment)
  | _ => .error s!"source_ref `{String.ofList s}` must be an absolute {String.ofList lower}:// URL"

/-- The normal form of a reference: a URI whose scheme is the channel. -/
def normalizeSourceRef (raw : String) : Except String String := do
  let s := trimChars raw.toList
  if s.isEmpty then .error "source_ref must not be empty"
  else if s.any fun c => isWhiteSpace c || isControl c then
    .error "source_ref must not contain whitespace or control characters"
  else if !validScheme s then
    .error s!"source_ref `{String.ofList s}` must be a URI with a scheme (e.g. https://…, mailto:…, self://…)"
  else
    let lower := lowerChars (s.takeWhile (· ≠ ':'))
    let rest := (s.dropWhile (· ≠ ':')).drop 1
    let out ← if lower = "http".toList || lower = "https".toList then normalizeWeb s lower rest
      else pure (lower ++ ':' :: rest)
    if sourceRefMaxLen < out.length then
      .error s!"source_ref is longer than {sourceRefMaxLen} characters"
    else pure (String.ofList out)

/-- What stands behind the two slashes of a web reference. -/
structure WebParts where
  authority : List Char
  path : List Char
  query : Option (List Char)
  fragment : Option (List Char)

private def isEnd (c : Char) : Bool := c = '/' || c = '?' || c = '#'

def splitWeb (after : List Char) : WebParts :=
  let (beforeFragment, fragment) := cutAt '#' (after.dropWhile fun c => !isEnd c)
  let (path, query) := cutAt '?' beforeFragment
  ⟨after.takeWhile fun c => !isEnd c, path, query, fragment⟩

private def marked (sign : Char) : Option (List Char) → List Char
  | some part => sign :: part
  | none => []

namespace WebParts

def text (parts : WebParts) : List Char :=
  parts.authority ++ (parts.path ++ marked '?' parts.query ++ marked '#' parts.fragment)

def defaultPort (lower : List Char) : List Char := if lower = "http".toList then ":80".toList else ":443".toList

/-- The authority without its userinfo. -/
def hostPort (parts : WebParts) : List Char :=
  match cutAtLast '@' parts.authority with
  | some (_, host) => host
  | none => parts.authority

def host (lower : List Char) (parts : WebParts) : List Char := stripSuffix (defaultPort lower) parts.hostPort

def clean (lower : List Char) (parts : WebParts) : WebParts :=
  ⟨lowerChars (parts.host lower), trimEndChars '/' parts.path, parts.query.bind stripSecretParams,
    (parts.fragment.map filterFragment).filter fun f => !f.isEmpty⟩

structure Formed (parts : WebParts) : Prop where
  authority : ∀ c ∈ parts.authority, isEnd c = false
  path : ∀ c ∈ parts.path, c ≠ '?' ∧ c ≠ '#'
  rooted : ∀ c ∈ parts.path.head?, c = '/'
  query : ∀ query ∈ parts.query, '#' ∉ query

end WebParts

theorem normalizeWeb_eq (s lower after : List Char) : normalizeWeb s lower ('/' :: '/' :: after) =
    if !validHost ((splitWeb after).host lower) then .error s!"source_ref `{String.ofList s}` has no valid host"
    else .ok (lower ++ "://".toList ++ ((splitWeb after).clean lower).text) := by
  simp only [normalizeWeb, WebParts.text, WebParts.clean, splitWeb, WebParts.host, WebParts.hostPort, WebParts.defaultPort,
    ← append_assoc]
  split
  · rfl
  · congr 2

variable {c sign : Char} {chars before s : List Char}

variable {text : List Char}

private theorem head?_of_front (h : chars <+: text) (hHead : c ∈ chars.head?) :
    c ∈ text.head? := by
  obtain ⟨more, rfl⟩ := h
  rw [head?_append, hHead]
  rfl

private theorem cutAt_of_not_mem (h : c ∉ chars) : cutAt c chars = (chars, none) := if_neg h

private theorem cutAt_append (h : c ∉ before) (after : List Char) :
    cutAt c (before ++ c :: after) = (before, some after) := by
  have hStart : ∀ d ∈ before, (decide (d ≠ c)) = true := fun d hMem => decide_eq_true fun hSame => h (hSame ▸ hMem)
  unfold cutAt
  rw [if_pos (by simp), takeWhile_append_of_pos hStart, dropWhile_append_of_pos hStart,
    takeWhile_cons_of_neg (by simp), dropWhile_cons_of_neg (by simp), append_nil]
  rfl

private theorem cutAt_cases (c : Char) (chars : List Char) :
    (c ∉ chars ∧ cutAt c chars = (chars, none)) ∨
      ∃ before after, c ∉ before ∧ chars = before ++ c :: after ∧ cutAt c chars = (before, some after) := by
  by_cases h : c ∈ chars
  · obtain ⟨before, after, rfl, hNone⟩ := eq_append_cons_of_mem h
    exact .inr ⟨before, after, hNone, rfl, cutAt_append hNone after⟩
  · exact .inl ⟨h, cutAt_of_not_mem h⟩

private theorem cutAt_spec (c : Char) (chars : List Char) : (cutAt c chars).1 <+: chars ∧ c ∉ (cutAt c chars).1 ∧
    ∀ part ∈ (cutAt c chars).2, part <:+ chars := by
  rcases cutAt_cases c chars with ⟨hNone, hCut⟩ | ⟨before, after, hNone, rfl, hCut⟩ <;> rw [hCut]
  · exact ⟨prefix_rfl, hNone, fun _ hMem => by cases hMem⟩
  · refine ⟨prefix_append _ _, hNone, ?_⟩
    rintro _ ⟨⟩
    exact (suffix_cons c after).trans (suffix_append _ _)

private theorem cutAtLast_of_not_mem (h : c ∉ chars) : cutAtLast c chars = none := by
  unfold cutAtLast
  rw [cutAt_of_not_mem (by rwa [mem_reverse])]

private theorem cutAtLast_append {after : List Char} (h : c ∉ after) (before : List Char) :
    cutAtLast c (before ++ c :: after) = some (before, after) := by
  have hReversed : (before ++ c :: after).reverse = after.reverse ++ c :: before.reverse := by
    rw [reverse_append, reverse_cons, append_assoc, singleton_append]
  unfold cutAtLast
  rw [hReversed, cutAt_append (by rwa [mem_reverse])]
  simp only [reverse_reverse]

private theorem cutAtLast_cases (c : Char) (chars : List Char) :
    (c ∉ chars ∧ cutAtLast c chars = none) ∨
      ∃ before after, c ∉ after ∧ chars = before ++ c :: after ∧ cutAtLast c chars = some (before, after) := by
  rcases cutAt_cases c chars.reverse with ⟨hNone, hCut⟩ | ⟨after, before, hNone, hChars, hCut⟩
  · exact .inl ⟨by rwa [mem_reverse] at hNone, by rw [cutAtLast, hCut]⟩
  · refine .inr ⟨before.reverse, after.reverse, by rwa [mem_reverse], ?_, by rw [cutAtLast, hCut]⟩
    rw [← reverse_reverse chars, hChars, reverse_append, reverse_cons, append_assoc, singleton_append]

private theorem stripSecretParams_spec {params kept : List Char} (h : stripSecretParams params = some kept) :
    kept.Sublist params ∧ (∀ param ∈ kept.splitOn '&', keptParam param = true) ∧ kept ≠ [] ∧
      stripSecretParams kept = some kept := by
  unfold stripSecretParams at h
  dsimp only at h
  generalize hParts : (params.splitOn '&').filter keptParam = parts at h
  split at h
  · cases h
  · rename_i hSome
    cases h
    have hKept : ∀ param ∈ parts, keptParam param = true := fun param hMem => (mem_filter.mp (hParts ▸ hMem)).2
    have hParted : ∀ param ∈ parts, '&' ∉ param := fun param hMem =>
      SeparatedPath.sep_not_mem_of_mem_splitOn (mem_filter.mp (hParts ▸ hMem)).1
    have hSplit : (['&'].intercalate parts).splitOn '&' = parts :=
      splitOn_intercalate '&' hParted fun hNone => hSome (hNone ▸ rfl)
    have hPart : (SeparatedPath.join '&' parts).Sublist (SeparatedPath.join '&' (params.splitOn '&')) :=
      SeparatedPath.join_sublist (hParts ▸ filter_sublist)
    rw [SeparatedPath.join, SeparatedPath.join, intercalate_splitOn] at hPart
    refine ⟨hPart, by rwa [hSplit], fun hNone => ?_, ?_⟩
    · rw [hNone] at hSplit
      exact absurd (hKept [] (by rw [← hSplit]; exact mem_singleton_self _)) (by decide)
    · simp only [stripSecretParams, hSplit, filter_eq_self.mpr hKept]
      exact if_neg hSome

private theorem filterPart_sublist (part : List Char) : (filterPart part).Sublist part := by
  unfold filterPart
  split
  · cases hStrip : stripSecretParams part with
    | none => exact nil_sublist _
    | some kept => exact (stripSecretParams_spec hStrip).1
  · exact List.Sublist.refl _

private theorem filterPart_idem (part : List Char) : filterPart (filterPart part) = filterPart part := by
  by_cases hPairs : '=' ∈ part
  · have hFirst : filterPart part = (stripSecretParams part).getD [] := if_pos hPairs
    rw [hFirst]
    cases hStrip : stripSecretParams part with
    | none => rfl
    | some kept =>
      unfold filterPart
      rw [Option.getD_some, (stripSecretParams_spec hStrip).2.2.2, Option.getD_some, ite_self]
  · have hSame : filterPart part = part := if_neg hPairs
    rw [hSame, hSame]

private theorem filterFragment_spec (fragment : List Char) :
    (filterFragment fragment).Sublist fragment ∧ filterFragment (filterFragment fragment) = filterFragment fragment := by
  have hPlain : ∀ part, '?' ∉ part → filterFragment (filterPart part) = filterPart part := by
    intro part hNone
    rw [filterFragment, cutAt_of_not_mem fun hMem => hNone ((filterPart_sublist part).subset hMem)]
    exact filterPart_idem part
  rcases cutAt_cases '?' fragment with ⟨hNone, hCut⟩ | ⟨route, params, hNone, rfl, hCut⟩
  · have hForm : filterFragment fragment = filterPart fragment := by rw [filterFragment, hCut]
    rw [hForm]
    exact ⟨filterPart_sublist _, hPlain _ hNone⟩
  · cases hStrip : stripSecretParams params with
    | none =>
      have hForm : filterFragment (route ++ '?' :: params) = filterPart route := by
        simp only [filterFragment, hCut, hStrip]
      rw [hForm]
      exact ⟨(filterPart_sublist _).trans (sublist_append_left _ _), hPlain _ hNone⟩
    | some kept =>
      have hForm : filterFragment (route ++ '?' :: params) = filterPart route ++ '?' :: kept := by
        simp only [filterFragment, hCut, hStrip, append_assoc, singleton_append]
      obtain ⟨hPart, -, -, hAgain⟩ := stripSecretParams_spec hStrip
      refine ⟨hForm ▸ (filterPart_sublist _).append (hPart.cons_cons _), ?_⟩
      rw [hForm, filterFragment, cutAt_append fun hMem => hNone ((filterPart_sublist route).subset hMem)]
      simp only [hAgain, filterPart_idem, append_assoc, singleton_append]

private theorem marked_head {part : Option (List Char)} : ∀ c ∈ (marked sign part).head?, c = sign := by
  cases part with
  | none => exact fun _ hMem => absurd hMem (by simp [marked])
  | some part => rintro _ ⟨⟩; rfl

private theorem cutAt_marked (h : sign ∉ before) (part : Option (List Char)) :
    cutAt sign (before ++ marked sign part) = (before, part) := by
  cases part with
  | none => rw [marked, append_nil, cutAt_of_not_mem h]
  | some part => exact cutAt_append h part

namespace WebParts

variable {lower after : List Char} {parts : WebParts}

theorem splitWeb_formed (after : List Char) : (splitWeb after).Formed := by
  have hTail : ∀ c ∈ (after.dropWhile fun c => !isEnd c).head?, isEnd c = true := by
    intro c hMem
    have hHead := head?_dropWhile_not (fun c => !isEnd c) after
    rw [hMem] at hHead
    simpa using hHead
  obtain ⟨hFront, hNone, -⟩ := cutAt_spec '#' (after.dropWhile fun c => !isEnd c)
  obtain ⟨hPath, hNoQuery, hQuery⟩ := cutAt_spec '?' (cutAt '#' (after.dropWhile fun c => !isEnd c)).1
  have hClear : ∀ c ∈ (splitWeb after).path, c ≠ '?' ∧ c ≠ '#' := fun c hMem =>
    ⟨by rintro rfl; exact hNoQuery hMem, by rintro rfl; exact hNone (hPath.subset hMem)⟩
  refine ⟨fun c hMem => by simpa using all_eq_true.mp all_takeWhile c hMem, hClear, fun c hHead => ?_,
    fun query hMem hHash => hNone ((hQuery query hMem).subset hHash)⟩
  have hFirst : c ∈ (after.dropWhile fun c => !isEnd c).head? := head?_of_front (hPath.trans hFront) hHead
  obtain ⟨hQuestion, hHash⟩ := hClear c (mem_of_mem_head? hHead)
  have hEnd := hTail c hFirst
  simpa [isEnd, hQuestion, hHash] using hEnd

theorem splitWeb_text (h : parts.Formed) : splitWeb parts.text = parts := by
  have hAuthority : ∀ c ∈ parts.authority, (!isEnd c) = true := fun c hMem => by rw [h.authority c hMem]; rfl
  have hTail : ∀ c ∈ (parts.path ++ marked '?' parts.query ++ marked '#' parts.fragment).head?, (!isEnd c) = false := by
    intro c hMem
    cases hPath : parts.path with
    | cons first rest =>
      rw [hPath] at hMem
      cases hMem
      rw [h.rooted c (by rw [hPath]; rfl)]
      rfl
    | nil =>
      rw [hPath, nil_append] at hMem
      cases hQuery : parts.query with
      | some query => rw [hQuery] at hMem; cases hMem; rfl
      | none =>
        rw [hQuery, marked, nil_append] at hMem
        rw [marked_head c hMem]
        rfl
  have hStop : ∀ tail : List Char, (∀ c ∈ tail.head?, (!isEnd c) = false) →
      tail.takeWhile (fun c => !isEnd c) = [] ∧ tail.dropWhile (fun c => !isEnd c) = tail := by
    intro tail hHead
    cases tail with
    | nil => exact ⟨rfl, rfl⟩
    | cons c rest =>
      have hEnd := Bool.not_eq_true _ ▸ hHead c rfl
      exact ⟨takeWhile_cons_of_neg hEnd, dropWhile_cons_of_neg hEnd⟩
  obtain ⟨hTake, hDrop⟩ := hStop _ hTail
  have hFront : '#' ∉ parts.path ++ marked '?' parts.query := by
    rw [mem_append, not_or]
    refine ⟨fun hMem => (h.path _ hMem).2 rfl, ?_⟩
    cases hQuery : parts.query with
    | none => exact not_mem_nil
    | some query => exact fun hMem => (mem_cons.mp hMem).elim (by decide) (h.query query hQuery)
  unfold splitWeb text
  rw [takeWhile_append_of_pos hAuthority, dropWhile_append_of_pos hAuthority, hTake, hDrop,
    cutAt_marked hFront]
  simp only [cutAt_marked fun hMem => (h.path _ hMem).1 rfl, append_nil]

theorem mem_stripSuffix {finish : List Char} (h : c ∈ stripSuffix finish chars) : c ∈ chars := by
  unfold stripSuffix at h
  split at h
  · exact mem_of_mem_take h
  · exact h

theorem mem_host (h : c ∈ parts.host lower) : c ∈ parts.authority ∧ c ≠ '@' := by
  have hMem : c ∈ parts.hostPort := mem_stripSuffix h
  unfold hostPort at hMem
  rcases cutAtLast_cases '@' parts.authority with ⟨hNone, hCut⟩ | ⟨user, host, hNone, hParts, hCut⟩ <;> rw [hCut] at hMem
  · exact ⟨hMem, fun hSame => hNone (hSame ▸ hMem)⟩
  · rw [hParts]
    exact ⟨by simp [show c ∈ host from hMem], fun hSame => hNone (hSame ▸ hMem)⟩

theorem isEnd_toLower (c : Char) : isEnd c.toLower = isEnd c := by
  unfold isEnd
  rw [Bool.eq_iff_iff]
  simp only [Bool.or_eq_true, decide_eq_true_eq]
  rw [toLower_eq_iff (by decide), toLower_eq_iff (by decide), toLower_eq_iff (by decide)]

theorem Formed.clean (h : parts.Formed) : (parts.clean lower).Formed := by
  have hTrim : trimEndChars '/' parts.path <+: parts.path := by
    have hEnd := reverse_prefix.mpr (dropWhile_suffix (l := parts.path.reverse) (· = '/'))
    rwa [reverse_reverse] at hEnd
  refine ⟨fun c hMem => ?_, fun c hMem => h.path c (hTrim.subset hMem),
    fun c hHead => h.rooted c (head?_of_front hTrim hHead), fun query hMem hHash => ?_⟩
  · obtain ⟨before, hBefore, rfl⟩ := mem_map.mp hMem
    rw [isEnd_toLower]
    exact h.authority before (mem_host hBefore).1
  · obtain ⟨params, hParams, hStrip⟩ := Option.bind_eq_some_iff.mp hMem
    exact h.query params hParams ((stripSecretParams_spec hStrip).1.subset hHash)

/-- A second default port is left of the host when the first is stripped. -/
def DoubledPort (lower : List Char) (parts : WebParts) : Prop := defaultPort lower <:+ parts.host lower

theorem lower_eq_sign {signs : List Char} (hSigns : ∀ sign ∈ signs, sign.toNat < 65)
    (h : chars.map Char.toLower = signs) : chars = signs := by
  refine ext_getElem (by rw [← h, length_map]) fun i hI hI' => ?_
  have hSame : chars[i].toLower = signs[i] := by
    subst h
    rw [getElem_map]
  exact (toLower_eq_iff (.inl (hSigns _ (getElem_mem hI')))).mp hSame

theorem clean_host (hPort : ¬parts.DoubledPort lower) : (parts.clean lower).host lower = lowerChars (parts.host lower) := by
  have hNone : '@' ∉ lowerChars (parts.host lower) := by
    intro hMem
    obtain ⟨c, hHost, hSame⟩ := mem_map.mp hMem
    exact (mem_host hHost).2 ((toLower_eq_iff (by decide)).mp hSame)
  have hSigns : ∀ sign ∈ defaultPort lower, sign.toNat < 65 := by
    unfold defaultPort
    split <;> simp
  have hStays : ¬(defaultPort lower).isSuffixOf (lowerChars (parts.host lower)) = true := by
    intro hEnd
    obtain ⟨front, hFront⟩ := isSuffixOf_iff_suffix.mp hEnd
    obtain ⟨before, port, hHost, -, hLower⟩ := map_eq_append_iff.mp hFront.symm
    exact hPort ⟨before, by rw [← lower_eq_sign hSigns hLower, hHost]⟩
  have hText : (parts.clean lower).hostPort = lowerChars (parts.host lower) := by
    change (match cutAtLast '@' (lowerChars (parts.host lower)) with
      | some (_, host) => host
      | none => lowerChars (parts.host lower)) = _
    rw [cutAtLast_of_not_mem hNone]
  rw [host, hText, stripSuffix, if_neg hStays]

theorem clean_clean (hPort : ¬parts.DoubledPort lower) : (parts.clean lower).clean lower = parts.clean lower := by
  unfold clean
  rw [show WebParts.host lower ⟨lowerChars (parts.host lower), _, _, _⟩ = _ from clean_host hPort]
  congr 1
  · rw [lowerChars, lowerChars, map_map]
    exact map_congr_left fun c _ => toLower_toLower c
  · unfold trimEndChars
    rw [reverse_reverse, dropWhile_idempotent]
  · cases hQuery : parts.query.bind stripSecretParams with
    | none => rfl
    | some kept =>
      obtain ⟨params, -, hStrip⟩ := Option.bind_eq_some_iff.mp hQuery
      exact (stripSecretParams_spec hStrip).2.2.2
  · cases hFragment : (parts.fragment.map filterFragment).filter fun f => !f.isEmpty with
    | none => rfl
    | some kept =>
      obtain ⟨hMap, hSome⟩ := Option.filter_eq_some_iff.mp hFragment
      obtain ⟨fragment, -, rfl⟩ := Option.map_eq_some_iff.mp hMap
      rw [Option.map_some, (filterFragment_spec fragment).2, Option.filter_some, if_pos hSome]

private theorem cutAtLast_lower (hSign : sign.toNat < 65) (chars : List Char) :
    cutAtLast sign (lowerChars chars) = (cutAtLast sign chars).map fun (before, after) => (lowerChars before, lowerChars after) := by
  have hMem : ∀ text : List Char, sign ∉ text → sign ∉ lowerChars text := by
    intro text hNone hIn
    obtain ⟨c, hChar, hSame⟩ := mem_map.mp hIn
    exact hNone ((toLower_eq_iff (.inl hSign)).mp hSame ▸ hChar)
  rcases cutAtLast_cases sign chars with ⟨hNone, hCut⟩ | ⟨before, after, hNone, rfl, hCut⟩ <;> rw [hCut]
  · exact cutAtLast_of_not_mem (hMem _ hNone)
  · have hText : lowerChars (before ++ sign :: after) = lowerChars before ++ sign :: lowerChars after := by
      rw [lowerChars, map_append, map_cons, (toLower_eq_iff (.inl hSign)).mpr rfl]
      rfl
    rw [hText, cutAtLast_append (hMem _ hNone)]
    rfl

theorem isDigit_toLower (c : Char) : c.toLower.isDigit = c.isDigit := by
  rcases toLower_cases c with hSame | ⟨hLow, hHigh, hMoved⟩
  · rw [hSame]
  · have hWord : ∀ d : Char, 65 ≤ d.toNat → d.isDigit = false := by
      intro d hBig
      rw [Bool.eq_false_iff, ne_eq, Char.isDigit, Bool.and_eq_true, decide_eq_true_eq, decide_eq_true_eq]
      exact fun hIs => absurd (UInt32.le_iff_toNat_le.mp hIs.2) (Nat.not_le.mpr (Nat.lt_of_lt_of_le (by decide) hBig))
    rw [hWord c hLow, hWord c.toLower (by omega)]

theorem validHost_lower (hostPort : List Char) : validHost (lowerChars hostPort) = validHost hostPort := by
  have hHead : ((lowerChars hostPort).head? = some '[') = (hostPort.head? = some '[') := by
    cases hostPort with
    | nil => rfl
    | cons first rest => simp [lowerChars, @toLower_eq_iff _ '[' (by decide)]
  have hLast : ((lowerChars hostPort).getLast? = some ']') = (hostPort.getLast? = some ']') := by
    rw [lowerChars, getLast?_map]
    cases hostPort.getLast? with
    | none => rfl
    | some last => simp [@toLower_eq_iff _ ']' (by decide)]
  have hCount : (lowerChars hostPort).count ':' = hostPort.count ':' := by
    rw [lowerChars, count_eq_countP, count_eq_countP, countP_map]
    exact countP_congr fun c _ => by simp [@toLower_eq_iff _ ':' (by decide)]
  unfold validHost
  simp only [ne_eq, hHead, hLast, hCount, @cutAtLast_lower ':' (by decide)]
  rcases cutAtLast ':' hostPort with _ | ⟨host, port⟩
  · simp [lowerChars]
  · simp [lowerChars, isDigit_toLower, Function.comp_def]

end WebParts

/-- The scheme of a trimmed reference, in small letters. -/
def sourceScheme (s : List Char) : List Char := lowerChars (s.takeWhile (· ≠ ':'))

private def sourceRest (s : List Char) : List Char := (s.dropWhile (· ≠ ':')).drop 1

def isWebScheme (lower : List Char) : Bool := lower = "http".toList || lower = "https".toList

private structure NormalForm (s text : List Char) : Prop where
  filled : s ≠ []
  plain : ∀ c ∈ s, isWhiteSpace c = false ∧ isControl c = false
  scheme : validScheme s = true
  body : (if isWebScheme (sourceScheme s) then normalizeWeb s (sourceScheme s) (sourceRest s)
    else .ok (sourceScheme s ++ ':' :: sourceRest s)) = .ok text
  short : text.length ≤ sourceRefMaxLen

private theorem normalizeSourceRef_ok_iff {raw out : String} :
    normalizeSourceRef raw = .ok out ↔ NormalForm (trimChars raw.toList) out.toList := by
  generalize hText : out.toList = text
  obtain rfl : out = String.ofList text := by rw [← hText, String.ofList_toList]
  unfold normalizeSourceRef
  generalize trimChars raw.toList = s
  have hFinish : ∀ body : Except String (List Char), (do
      let out ← body
      if sourceRefMaxLen < out.length then .error s!"source_ref is longer than {sourceRefMaxLen} characters"
      else pure (String.ofList out)) = .ok (String.ofList text) ↔ body = .ok text ∧ text.length ≤ sourceRefMaxLen := by
    intro body
    cases body with
    | error e => exact iff_of_false (fun h => by cases h) (fun h => by cases h.1)
    | ok out =>
      change (if sourceRefMaxLen < out.length then _ else pure (String.ofList out)) = _ ↔ _
      by_cases hLong : sourceRefMaxLen < out.length
      · rw [if_pos hLong]
        refine iff_of_false (fun h => by cases h) fun h => ?_
        obtain rfl : out = text := by cases h.1; rfl
        exact absurd h.2 (Nat.not_le.mpr hLong)
      · rw [if_neg hLong]
        constructor
        · intro h
          obtain rfl : out = text := String.ofList_injective (Except.ok.inj h)
          exact ⟨rfl, Nat.not_lt.mp hLong⟩
        · rintro ⟨h, -⟩
          cases h
          rfl
  dsimp only
  by_cases hNone : s.isEmpty = true
  · rw [if_pos hNone]
    exact iff_of_false (fun h => by cases h) fun h => h.filled (isEmpty_iff.mp hNone)
  rw [if_neg hNone]
  by_cases hPlain : (s.any fun c => isWhiteSpace c || isControl c) = true
  · rw [if_pos hPlain]
    refine iff_of_false (fun h => by cases h) fun h => ?_
    obtain ⟨c, hMem, hIs⟩ := any_eq_true.mp hPlain
    rw [(h.plain c hMem).1, (h.plain c hMem).2] at hIs
    cases hIs
  rw [if_neg hPlain]
  by_cases hScheme : (!validScheme s) = true
  · rw [if_pos hScheme]
    refine iff_of_false (fun h => by cases h) fun h => ?_
    rw [h.scheme] at hScheme
    cases hScheme
  rw [if_neg hScheme]
  have hAccepts : NormalForm s text ↔ (if isWebScheme (sourceScheme s) then normalizeWeb s (sourceScheme s) (sourceRest s)
      else .ok (sourceScheme s ++ ':' :: sourceRest s)) = .ok text ∧ text.length ≤ sourceRefMaxLen := by
    refine ⟨fun h => ⟨h.body, h.short⟩, fun h => ⟨fun hEmpty => hNone (isEmpty_iff.mpr hEmpty), fun c hMem => ?_,
      by simpa using hScheme, h.1, h.2⟩⟩
    have hNot : ∀ d ∈ s, ¬(isWhiteSpace d || isControl d) = true := fun d hIn hIs =>
      hPlain (any_eq_true.mpr ⟨d, hIn, hIs⟩)
    exact Bool.or_eq_false_iff.mp (Bool.eq_false_iff.mpr (hNot c hMem))
  rw [hAccepts, ← hFinish]
  unfold isWebScheme sourceScheme sourceRest
  split <;> rfl

/-- What stands behind the slashes of a web reference. -/
def webAfter (s : List Char) : Option (List Char) :=
  if isWebScheme (sourceScheme s) then
    match sourceRest s with
    | '/' :: '/' :: after => some after
    | _ => none
  else none

theorem webAfter_slashes {s after : List Char} (hWeb : isWebScheme (sourceScheme s) = true)
    (h : sourceRest s = '/' :: '/' :: after) : webAfter s = some after := by
  rw [webAfter, if_pos hWeb, h]
  rfl

private theorem isAlpha_toLower (h : c.isAlpha = true) : c.toLower.isAlpha = true := by
  rcases toLower_cases c with hSame | ⟨hLow, hHigh, hMoved⟩
  · rwa [hSame]
  · have hFirst : 97 ≤ c.toLower.toNat := by omega
    have hLast : c.toLower.toNat ≤ 122 := by omega
    exact Bool.or_eq_true_iff.mpr (.inr (Bool.and_eq_true_iff.mpr
      ⟨decide_eq_true (UInt32.le_iff_toNat_le.mpr hFirst), decide_eq_true (UInt32.le_iff_toNat_le.mpr hLast)⟩))

private theorem isSchemeChar_toLower (h : isSchemeChar c = true) : isSchemeChar c.toLower = true := by
  rcases toLower_cases c with hSame | ⟨hLow, hHigh, hMoved⟩
  · rwa [hSame]
  · have hAlpha : c.isAlpha = true := Bool.or_eq_true_iff.mpr
      (.inl (decide_eq_true ⟨UInt32.le_iff_toNat_le.mpr hLow, UInt32.le_iff_toNat_le.mpr hHigh⟩))
    simp [isSchemeChar, Char.isAlphanum, isAlpha_toLower hAlpha]

private theorem scheme_read (hValid : validScheme s = true) (rest : List Char) :
    sourceScheme (sourceScheme s ++ ':' :: rest) = sourceScheme s ∧ sourceRest (sourceScheme s ++ ':' :: rest) = rest ∧
      validScheme (sourceScheme s ++ ':' :: rest) = true := by
  have hColon : ∀ c ∈ sourceScheme s, decide (c ≠ ':') = true := by
    intro c hMem
    obtain ⟨before, hBefore, rfl⟩ := mem_map.mp hMem
    have hNot : before ≠ ':' := by simpa using all_eq_true.mp all_takeWhile before hBefore
    exact decide_eq_true fun hSame => hNot ((toLower_eq_iff (by decide)).mp hSame)
  have hTake : (sourceScheme s ++ ':' :: rest).takeWhile (· ≠ ':') = sourceScheme s := by
    rw [takeWhile_append_of_pos hColon, takeWhile_cons_of_neg (by simp), append_nil]
  have hTwice : lowerChars (sourceScheme s) = sourceScheme s := by
    rw [sourceScheme, lowerChars, lowerChars, map_map]
    exact map_congr_left fun c _ => toLower_toLower c
  refine ⟨by rw [sourceScheme, hTake, hTwice], ?_, ?_⟩
  · rw [sourceRest, dropWhile_append_of_pos hColon, dropWhile_cons_of_neg (by simp)]
    rfl
  · unfold validScheme at hValid ⊢
    simp only [Bool.and_eq_true, decide_eq_true_eq] at hValid
    obtain ⟨⟨-, hHead⟩, hAll⟩ := hValid
    simp only [hTake, Bool.and_eq_true, decide_eq_true_eq]
    refine ⟨⟨by simp, ?_⟩, ?_⟩
    · obtain ⟨first, hFirst, hAlpha⟩ := (Option.any_eq_true _ _).mp hHead
      refine (Option.any_eq_true _ _).mpr ⟨first.toLower, ?_, isAlpha_toLower hAlpha⟩
      rw [sourceScheme, lowerChars, head?_map, hFirst, Option.map_some]
    · exact all_eq_true.mpr fun c hMem => by
        obtain ⟨before, hBefore, rfl⟩ := mem_map.mp hMem
        exact isSchemeChar_toLower (all_eq_true.mp hAll before hBefore)

private theorem plain_toLower (h : isWhiteSpace c = false ∧ isControl c = false) :
    isWhiteSpace c.toLower = false ∧ isControl c.toLower = false := by
  rcases toLower_cases c with hSame | ⟨hLow, hHigh, hMoved⟩
  · rwa [hSame]
  · refine ⟨(isWhiteSpace_toLower c).trans h.1, ?_⟩
    simp only [isControl, Bool.or_eq_false_iff, Bool.and_eq_false_iff, decide_eq_false_iff_not]
    omega

namespace WebParts

theorem text_splitWeb (after : List Char) : (splitWeb after).text = after := by
  have hCut : ∀ (sign : Char) (chars : List Char), (cutAt sign chars).1 ++ marked sign (cutAt sign chars).2 = chars := by
    intro sign chars
    rcases cutAt_cases sign chars with ⟨-, hCut⟩ | ⟨before, rest, -, hChars, hCut⟩
    · rw [hCut, marked, append_nil]
    · rw [hCut, hChars, marked]
  simp only [text, splitWeb, hCut, takeWhile_append_dropWhile]

theorem mem_text_clean {lower : List Char} {parts : WebParts} (h : c ∈ (parts.clean lower).text) :
    ∃ d, (d ∈ parts.text ∨ d = '?' ∨ d = '#') ∧ (c = d ∨ c = d.toLower) := by
  have hMarked : ∀ (sign : Char) (part kept : Option (List Char)), (∀ text ∈ kept, ∃ whole ∈ part, text.Sublist whole) →
      c ∈ marked sign kept → c = sign ∨ c ∈ marked sign part := by
    intro sign part kept hPart hMem
    cases kept with
    | none => cases hMem
    | some text =>
      obtain ⟨whole, rfl, hSub⟩ := hPart text rfl
      exact (mem_cons.mp hMem).imp_right fun hIn => mem_cons_of_mem _ (hSub.subset hIn)
  simp only [text, mem_append] at h ⊢
  rcases h with hHost | (hPath | hQuery) | hFragment
  · obtain ⟨d, hMem, rfl⟩ := mem_map.mp hHost
    exact ⟨d, .inl (.inl (mem_host hMem).1), .inr rfl⟩
  · have hEnd := reverse_sublist.mpr (parts.path.reverse.dropWhile_sublist (· = '/'))
    rw [reverse_reverse] at hEnd
    exact ⟨c, .inl (.inr (.inl (.inl (hEnd.subset hPath)))), .inl rfl⟩
  · have hPart : ∀ text ∈ parts.query.bind stripSecretParams, ∃ whole ∈ parts.query, text.Sublist whole := by
      intro text hText
      obtain ⟨params, hParams, hStrip⟩ := Option.bind_eq_some_iff.mp hText
      exact ⟨params, hParams, (stripSecretParams_spec hStrip).1⟩
    rcases hMarked '?' parts.query _ hPart hQuery with hSign | hMem
    · exact ⟨c, .inr (.inl hSign), .inl rfl⟩
    · exact ⟨c, .inl (.inr (.inl (.inr hMem))), .inl rfl⟩
  · have hPart : ∀ text ∈ (parts.fragment.map filterFragment).filter (fun f => !f.isEmpty),
        ∃ whole ∈ parts.fragment, text.Sublist whole := by
      intro text hText
      obtain ⟨fragment, hWhole, rfl⟩ := Option.map_eq_some_iff.mp (Option.filter_eq_some_iff.mp hText).1
      exact ⟨fragment, hWhole, (filterFragment_spec fragment).1⟩
    rcases hMarked '#' parts.fragment _ hPart hFragment with hSign | hMem
    · exact ⟨c, .inr (.inr hSign), .inl rfl⟩
    · exact ⟨c, .inl (.inr (.inr hMem)), .inl rfl⟩

end WebParts

/-- A reference without credentials: a web reference has no userinfo, and no parameter
whose name is a secret's. -/
def SafeRef (s : List Char) : Prop :=
  ∀ after ∈ webAfter s, '@' ∉ (splitWeb after).authority ∧
    ∀ query ∈ (splitWeb after).query, ∀ param ∈ query.splitOn '&', keptParam param = true

/-- A web reference whose authority ends in the default port still when that is stripped. -/
def DoublesPort (s : List Char) : Prop := ∃ after ∈ webAfter s, (splitWeb after).DoubledPort (sourceScheme s)

private theorem NormalForm.plain_scheme (h : NormalForm s text) (hMem : c ∈ sourceScheme s) :
    isWhiteSpace c = false ∧ isControl c = false := by
  obtain ⟨before, hBefore, rfl⟩ := mem_map.mp hMem
  exact plain_toLower (h.plain before ((takeWhile_sublist _).subset hBefore))

private theorem NormalForm.plain_rest (h : NormalForm s text) (hMem : c ∈ sourceRest s) :
    isWhiteSpace c = false ∧ isControl c = false :=
  h.plain c ((dropWhile_sublist _).subset (mem_of_mem_drop hMem))

private theorem NormalForm.web (h : NormalForm s text) (hWeb : isWebScheme (sourceScheme s) = true) :
    ∃ after, webAfter s = some after ∧ sourceRest s = '/' :: '/' :: after ∧
      validHost ((splitWeb after).host (sourceScheme s)) = true ∧
      text = sourceScheme s ++ ':' :: '/' :: '/' :: ((splitWeb after).clean (sourceScheme s)).text := by
  have hBody := h.body
  rw [if_pos hWeb] at hBody
  have hAfter : ∃ after, sourceRest s = '/' :: '/' :: after := by
    unfold normalizeWeb at hBody
    split at hBody
    · rename_i after hRest
      exact ⟨after, hRest⟩
    · cases hBody
  obtain ⟨after, hRest⟩ := hAfter
  rw [hRest, normalizeWeb_eq] at hBody
  split at hBody
  · cases hBody
  · rename_i hHost
    refine ⟨after, webAfter_slashes hWeb hRest, hRest, by simpa using hHost, ?_⟩
    rw [← Except.ok.inj hBody, append_assoc]
    rfl

private theorem NormalForm.again (h : NormalForm s text) (hPort : ¬DoublesPort s) : NormalForm text text := by
  by_cases hWeb : isWebScheme (sourceScheme s) = true
  · obtain ⟨after, hAfter, hRest, hHost, rfl⟩ := h.web hWeb
    have hClean : ¬(splitWeb after).DoubledPort (sourceScheme s) := fun hDouble => hPort ⟨after, hAfter, hDouble⟩
    have hFormed : ((splitWeb after).clean (sourceScheme s)).Formed := (WebParts.splitWeb_formed after).clean
    obtain ⟨hScheme, hBehind, hValid⟩ := scheme_read h.scheme ('/' :: '/' :: ((splitWeb after).clean (sourceScheme s)).text)
    refine ⟨by simp, fun c hMem => ?_, hValid, ?_, h.short⟩
    · have hSigns : ∀ sign ∈ [':', '/', '?', '#'], isWhiteSpace sign = false ∧ isControl sign = false := by
        simp [isWhiteSpace, isControl]
      simp only [mem_append, mem_cons] at hMem
      rcases hMem with hMem | rfl | rfl | rfl | hMem
      · exact h.plain_scheme hMem
      · exact hSigns ':' (by simp)
      · exact hSigns '/' (by simp)
      · exact hSigns '/' (by simp)
      · obtain ⟨d, hFrom, hSame⟩ := WebParts.mem_text_clean hMem
        have hPlain : isWhiteSpace d = false ∧ isControl d = false := by
          rcases hFrom with hIn | rfl | rfl
          · rw [WebParts.text_splitWeb] at hIn
            exact h.plain_rest (by rw [hRest]; simp [hIn])
          · exact hSigns '?' (by simp)
          · exact hSigns '#' (by simp)
        rcases hSame with rfl | rfl
        · exact hPlain
        · exact plain_toLower hPlain
    · rw [hScheme, hBehind, if_pos hWeb, normalizeWeb_eq, WebParts.splitWeb_text hFormed, WebParts.clean_host hClean,
        WebParts.validHost_lower, hHost, WebParts.clean_clean hClean, append_assoc]
      rfl
  · have hBody := h.body
    rw [if_neg hWeb] at hBody
    obtain rfl := Except.ok.inj hBody
    obtain ⟨hScheme, hBehind, hValid⟩ := scheme_read h.scheme (sourceRest s)
    refine ⟨by simp, fun c hMem => ?_, hValid, ?_, h.short⟩
    · rcases mem_append.mp hMem with hIn | hIn
      · exact h.plain_scheme hIn
      · rcases mem_cons.mp hIn with rfl | hIn
        · decide
        · exact h.plain_rest hIn
    · rw [hScheme, hBehind, if_neg hWeb]

/-- The normal form of a reference has no credentials where it is a web reference, and is
what the reference says behind its scheme where it is another. It is its own normal form,
unless a second default port comes to light. -/
theorem source_ref_canonical (raw out : String) (h : normalizeSourceRef raw = .ok out) :
    SafeRef out.toList ∧
    (isWebScheme (sourceScheme (trimChars raw.toList)) = false →
      out.toList = sourceScheme (trimChars raw.toList) ++ ':' :: ((trimChars raw.toList).dropWhile (· ≠ ':')).drop 1) ∧
    (¬DoublesPort (trimChars raw.toList) → normalizeSourceRef out = .ok out) := by
  have hAccepts := normalizeSourceRef_ok_iff.mp h
  refine ⟨?_, fun hOther => ?_, fun hPort => ?_⟩
  · intro after hAfter
    by_cases hWeb : isWebScheme (sourceScheme (trimChars raw.toList)) = true
    · obtain ⟨before, -, -, -, hText⟩ := hAccepts.web hWeb
      obtain ⟨hScheme, hBehind, -⟩ := scheme_read hAccepts.scheme
        ('/' :: '/' :: ((splitWeb before).clean (sourceScheme (trimChars raw.toList))).text)
      rw [hText, webAfter_slashes (hScheme.symm ▸ hWeb) hBehind] at hAfter
      obtain rfl := Option.mem_some.mp hAfter
      rw [WebParts.splitWeb_text (WebParts.splitWeb_formed before).clean]
      refine ⟨fun hMem => ?_, fun query hQuery => ?_⟩
      · obtain ⟨c, hHost, hSame⟩ := mem_map.mp hMem
        exact (WebParts.mem_host hHost).2 ((toLower_eq_iff (by decide)).mp hSame)
      · obtain ⟨params, -, hStrip⟩ := Option.bind_eq_some_iff.mp hQuery
        exact (stripSecretParams_spec hStrip).2.1
    · have hBody := hAccepts.body
      rw [if_neg hWeb] at hBody
      rw [← Except.ok.inj hBody, webAfter, (scheme_read hAccepts.scheme _).1, if_neg hWeb] at hAfter
      cases hAfter
  · have hBody := hAccepts.body
    rw [if_neg (by rw [hOther]; exact Bool.false_ne_true)] at hBody
    exact (Except.ok.inj hBody).symm
  · have hAgain := hAccepts.again hPort
    refine normalizeSourceRef_ok_iff.mpr ?_
    have hTrimmed : trimChars out.toList = out.toList :=
      (trimChars_eq_self_iff _).mpr ⟨fun c hMem => (hAgain.plain c (mem_of_mem_head? hMem)).1,
        fun c hMem => (hAgain.plain c (mem_of_mem_getLast? hMem)).1⟩
    rwa [hTrimmed]

theorem source_ref_canonical_web :
    normalizeSourceRef "HTTPS://U:pw@Host:443/a/?token=1&id=2" = .ok "https://host/a?id=2" ∧
      SafeRef "https://host/a?id=2".toList :=
  ⟨by decide +kernel, (source_ref_canonical "HTTPS://U:pw@Host:443/a/?token=1&id=2" _ (by decide +kernel)).1⟩

/-- A reference of another scheme keeps its credentials, and a second default port is
stripped the second time only. -/
theorem source_ref_not_canonical :
    normalizeSourceRef "ssh://user:pw@host/x?token=1" = .ok "ssh://user:pw@host/x?token=1" ∧
    normalizeSourceRef "https://h:443:443" = .ok "https://h:443" ∧ normalizeSourceRef "https://h:443" = .ok "https://h" := by
  decide +kernel

/-- Empty fields take the incoming value, set ones stay. Two different upstreams
are refused with the one that is set. -/
def SourceNode.fillFrom (self incoming : SourceNode) : Except String SourceNode :=
  let filled := { self with
    label := self.label.or incoming.label
    occurredAt := self.occurredAt.or incoming.occurredAt
    note := self.note.or incoming.note
    upstreamRef := self.upstreamRef.or incoming.upstreamRef }
  match self.upstreamRef, incoming.upstreamRef with
  | some present, some new => if present = new then .ok filled else .error present
  | _, _ => .ok filled

/-- A trimmed text of bounded length, or none when nothing is left of it. -/
def trimmedField (value : Option String) (name : String) (max : Nat) : Except String (Option String) :=
  match (value.map trim).filter fun text => text ≠ "" with
  | none => .ok none
  | some text =>
    if max < charCount text then .error s!"source {name} is longer than {max} characters" else .ok (some text)

/-- Validate and normalise one node, without its upstream. -/
def SourceInput.toNode (self : SourceInput) (validDate : String → Bool) (syntheticRef : String)
    (createdAt : Timestamp) (createdBy : Actor) : Except String SourceNode := do
  let label ← trimmedField self.label "label" 512
  let sourceRef ← match self.sourceRef, label with
    | some raw, _ => normalizeSourceRef raw
    | none, some _ => .ok syntheticRef
    | none, none => .error "a source node needs `ref` or `label`"
  let occurredAt ← trimmedField self.occurredAt "occurred_at" 64
  match occurredAt with
  | some instant =>
    if validDate instant then pure ()
    else .error s!"source occurred_at `{instant}` must be RFC 3339 or YYYY-MM-DD"
  | none => pure ()
  let note ← trimmedField self.note "note" 4096
  pure ⟨sourceRef, label, occurredAt, note, none, createdAt, some createdBy⟩

end Daruma
