import Daruma.Library.JsonTree

/-! What the response of a mutating tool loses of the values that the client itself
has sent. -/
namespace Daruma
namespace EchoProjection

open JsonTree (Step)

variable {Number : Type} [BEq Number]

def echoMinStripLen : Nat := 32

/-- Fields with these keys are the result of a mutation, never echo. -/
def isResultKey (key : String) : Bool :=
  key ∈ ["id", "ids"] || ["_id", "_ids", "_at"].any (fun ending => ending.toList.isSuffixOf key.toList) ||
    key ∈ ["status", "seq", "event_seq", "version", "success", "error", "errors", "code", "message",
      "truncation"]

mutual

/-- A value and every value nested in it. -/
def collectArgValues : JsonTree Number → List (JsonTree Number)
  | .object fields => .object fields :: collectFields fields
  | .array items => .array items :: collectItems items
  | value => [value]

def collectItems : List (JsonTree Number) → List (JsonTree Number)
  | [] => []
  | item :: rest => collectArgValues item ++ collectItems rest

def collectFields : List (String × JsonTree Number) → List (JsonTree Number)
  | [] => []
  | (_, child) :: rest => collectArgValues child ++ collectFields rest

end

def isEcho (sent : List (JsonTree Number)) (value : JsonTree Number) : Bool :=
  match value with
  | .string text => echoMinStripLen ≤ text.utf8ByteSize && sent.any (· == value)
  | .object _ | .array _ => sent.any (· == value)
  | _ => false

mutual

def stripEchoValues (sent : List (JsonTree Number)) : JsonTree Number → JsonTree Number
  | .object fields => .object (stripFields sent fields)
  | .array items => .array (stripItems sent items)
  | value => value

def stripItems (sent : List (JsonTree Number)) : List (JsonTree Number) → List (JsonTree Number)
  | [] => []
  | item :: rest => stripEchoValues sent item :: stripItems sent rest

def stripFields (sent : List (JsonTree Number)) :
    List (String × JsonTree Number) → List (String × JsonTree Number)
  | [] => []
  | (key, child) :: rest =>
    if isResultKey key then (key, child) :: stripFields sent rest
    else if isEcho sent child then stripFields sent rest
    else (key, stripEchoValues sent child) :: stripFields sent rest

end

/-- Everything that the client sent in the arguments of a call. -/
def sentValues (args : List (String × JsonTree Number)) : List (JsonTree Number) :=
  (args.filter fun arg => arg.1 ≠ "verbose").flatMap fun arg => collectArgValues arg.2

def stripRequestEcho (response : JsonTree Number) (args : List (String × JsonTree Number)) : JsonTree Number :=
  if (sentValues args).isEmpty then response else stripEchoValues (sentValues args) response

/-- A step into a field of the result. -/
def entersResult : Step → Bool
  | .key name => isResultKey name
  | .index _ => false

/-- A field that is dropped as echo. -/
def entersEcho (sent : List (JsonTree Number)) : Step → JsonTree Number → Bool
  | .key name, child => !isResultKey name && isEcho sent child
  | .index _, _ => false

/-- A path enters a field that is echo, with no field of the result above it. -/
def removed (sent : List (JsonTree Number)) : JsonTree Number → List Step → Bool
  | _, [] => false
  | value, step :: path => (value.child? step).any fun child =>
    entersEcho sent step child || !entersResult step && removed sent child path

variable {sent : List (JsonTree Number)}

theorem getElem?_stripItems (items : List (JsonTree Number)) (place : Nat) :
    (stripItems sent items)[place]? = items[place]?.map (stripEchoValues sent) := by
  induction items generalizing place with
  | nil => rfl
  | cons item rest ih =>
    cases place with
    | zero => rfl
    | succ place => exact ih place

theorem lookup_stripFields {fields : List (String × JsonTree Number)} (h : (fields.map Prod.fst).Nodup)
    (name : String) :
    (stripFields sent fields).lookup name = (fields.lookup name).bind fun child =>
      if entersEcho sent (.key name) child then none
      else some (if isResultKey name then child else stripEchoValues sent child) := by
  induction fields with
  | nil => rfl
  | cons field rest ih =>
    obtain ⟨key, child⟩ := field
    obtain ⟨hNew, hRest⟩ := List.nodup_cons.mp h
    by_cases hKey : name = key
    · subst hKey
      -- Without the field of this key nothing is found under it.
      have hNone : rest.lookup name = none :=
        List.lookup_eq_none_iff.mpr fun field hField =>
          bne_iff_ne.mpr fun hIs => hNew (List.mem_map.mpr ⟨field, hField, hIs.symm⟩)
      have hDropped := ih hRest
      rw [hNone] at hDropped
      rw [stripFields, List.lookup_cons_self]
      by_cases hResult : isResultKey name
      · simp [hResult, entersEcho]
      · by_cases hEcho : isEcho sent child
        · simpa [hResult, hEcho, entersEcho] using hDropped
        · simp [hResult, hEcho, entersEcho]
    · have hOther : (name == key) = false := beq_false_of_ne hKey
      have hLater : ((key, child) :: rest).lookup name = rest.lookup name := by simp [List.lookup_cons, hOther]
      rw [hLater, ← ih hRest, stripFields]
      split_ifs <;> simp [List.lookup_cons, hOther]

theorem child?_stripEchoValues {value : JsonTree Number} (h : value.WellFormed) (step : Step) :
    (stripEchoValues sent value).child? step = (value.child? step).bind fun child =>
      if entersEcho sent step child then none
      else some (if entersResult step then child else stripEchoValues sent child) := by
  cases value with
  | object fields =>
    cases step with
    | key name => exact lookup_stripFields (h [] fields rfl) name
    | index place => rfl
  | array items =>
    cases step with
    | key name => rfl
    | index place => exact (getElem?_stripItems items place).trans (Option.map_eq_bind ..)
  | _ => rfl

theorem stripEchoValues_at {value : JsonTree Number} (h : value.WellFormed) (path : List Step) :
    (stripEchoValues sent value).at? path =
      if removed sent value path then none
      else (value.at? path).map fun found =>
        if path.any entersResult then found else stripEchoValues sent found := by
  induction path generalizing value with
  | nil => simp [JsonTree.at?, removed]
  | cons step path ih =>
    rw [JsonTree.at?, child?_stripEchoValues h step, removed, JsonTree.at?]
    cases hChild : value.child? step with
    | none => rfl
    | some child =>
      have hBelow := ih (h.child hChild)
      by_cases hEcho : entersEcho sent step child
      · simp [hEcho]
      · by_cases hResult : entersResult step
        · simp [hEcho, hResult]
        · simp [hEcho, hResult, hBelow]

theorem removed_nil (value : JsonTree Number) (path : List Step) : removed [] value path = false := by
  induction path generalizing value with
  | nil => rfl
  | cons step path ih =>
    have hEcho (child : JsonTree Number) : entersEcho [] step child = false := by
      cases step <;> cases child <;> simp [entersEcho, isEcho]
    simp [removed, hEcho, ih]

/-- The response keeps at every path what it had there, unless the path enters a
field that is echo; below a field of the result it keeps it verbatim. -/
theorem projection_exact (response : JsonTree Number) (args : List (String × JsonTree Number))
    (h : response.WellFormed) (path : List Step) :
    (stripRequestEcho response args).at? path =
      if removed (sentValues args) response path then none
      else (response.at? path).map fun found =>
        if path.any entersResult then found else stripRequestEcho found args := by
  unfold stripRequestEcho
  by_cases hNothing : (sentValues args).isEmpty
  · simp [List.isEmpty_iff.mp hNothing, removed_nil]
  · simp only [hNothing, Bool.false_eq_true, if_false]
    exact stripEchoValues_at h path

/-- The comment that the server has made of a text. -/
private def comment : JsonTree Nat :=
  .object [("body", .string "A comment of more than thirty-two bytes.")]

private theorem comment_wellFormed : comment.WellFormed := by
  intro path fields hAt
  cases path with
  | nil =>
    cases hAt
    decide
  | cons step path =>
    obtain ⟨child, hChild, hBelow⟩ := Option.bind_eq_some_iff.mp hAt
    cases step with
    | index place => cases hChild
    | key name =>
      have hValue : child = .string "A comment of more than thirty-two bytes." := by
        simp only [comment, JsonTree.child?, List.lookup_cons, List.lookup_nil] at hChild
        split at hChild <;> simp_all
      subst hValue
      cases path <;> cases hBelow

theorem comment_loses_body :
    (stripRequestEcho comment [("body", .string "A comment of more than thirty-two bytes.")]).at?
      [.key "body"] = none := by
  rw [projection_exact comment _ comment_wellFormed]
  rfl

end EchoProjection
end Daruma
