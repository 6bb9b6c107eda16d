import Daruma.Domain.Plan
import Daruma.Shared.PathLease
import Mathlib.Data.List.DropRight

/-! What hangs off tasks: relations, documents, comments, work units, leases
and handoffs, and the sessions and signals of the agents that work on them. -/
namespace Daruma

open List

inductive RelationKind where
  | blocks | relatesTo | duplicates | wasBlocking
  deriving DecidableEq

structure Relation where
  id : RelationId
  source : TaskId
  target : TaskId
  kind : RelationKind
  createdAt : Timestamp
  createdBy : Actor
  deriving DecidableEq

inductive DocumentKind where
  | interview | humanLog
  deriving DecidableEq

inductive DocumentStatus where
  | draft | active | outdated | archived | frozen | replaced
  deriving DecidableEq

structure Document where
  id : DocumentId
  projectId : ProjectId
  kind : DocumentKind
  title : String
  content : String
  status : DocumentStatus
  taskId : Option TaskId
  triggerKind : Option String
  consumer : Option String
  createdAt : Timestamp
  updatedAt : Timestamp
  archivedAt : Option Timestamp
  lastReadAt : Option Timestamp
  lastReadBy : Option String
  readCount : Nat
  deriving DecidableEq

structure NewDocument where
  id : Option DocumentId
  projectId : ProjectId
  kind : DocumentKind
  title : String
  content : Option String
  status : Option DocumentStatus
  taskId : Option TaskId
  triggerKind : Option String
  consumer : Option String

def NewDocument.intoDocument (self : NewDocument) (id : DocumentId) (now : Timestamp) : Document where
  id := id
  projectId := self.projectId
  kind := self.kind
  title := self.title
  content := self.content.getD ""
  status := self.status.getD .active
  taskId := self.taskId
  triggerKind := self.triggerKind
  consumer := self.consumer
  createdAt := now
  updatedAt := now
  archivedAt := none
  lastReadAt := none
  lastReadBy := none
  readCount := 0

inductive CommentKind where
  | intent | progress | outcome | blocker | research
  deriving DecidableEq

structure Comment where
  id : CommentId
  taskId : TaskId
  author : Actor
  body : String
  parentId : Option CommentId
  kind : Option CommentKind
  createdAt : Timestamp
  editedAt : Option Timestamp
  deletedAt : Option Timestamp
  deriving DecidableEq

structure NewComment where
  id : Option CommentId
  taskId : TaskId
  body : String
  parentId : Option CommentId
  kind : Option CommentKind

def Comment.fromNew (input : NewComment) (id : CommentId) (actor : Actor) (now : Timestamp) : Comment where
  id := input.id.getD id
  taskId := input.taskId
  author := actor
  body := input.body
  parentId := input.parentId
  kind := input.kind
  createdAt := now
  editedAt := none
  deletedAt := none

structure CommentPatch where
  body : Option String

/-- The comment a caller can attach to a status change. -/
structure TransitionComment where
  body : String
  kind : Option CommentKind

def TransitionComment.maxBodyBytes : Nat := 4 * 1024

inductive WorkUnitStatus where
  | todo | ready | inProgress | blocked | review | done | cancelled
  deriving DecidableEq

def WorkUnitStatus.isTerminal : WorkUnitStatus → Bool
  | .done | .cancelled => true
  | _ => false

structure WorkUnit where
  id : WorkUnitId
  taskId : TaskId
  stagePlanId : Option PlanId
  title : String
  description : String
  status : WorkUnitStatus
  priority : Priority
  capabilityTags : List String
  ownerAgentId : Option AgentId
  claimExpiresAt : Option Timestamp
  artifactRefs : List String
  acceptance : List String
  createdAt : Timestamp
  updatedAt : Timestamp
  deriving DecidableEq

structure NewWorkUnit where
  id : Option WorkUnitId
  taskId : TaskId
  stagePlanId : Option PlanId
  title : String
  description : Option String
  status : Option WorkUnitStatus
  priority : Option Priority
  capabilityTags : List String
  artifactRefs : List String
  acceptance : List String

def NewWorkUnit.intoWorkUnit (self : NewWorkUnit) (id : WorkUnitId) (now : Timestamp) : WorkUnit where
  id := self.id.getD id
  taskId := self.taskId
  stagePlanId := self.stagePlanId
  title := self.title
  description := self.description.getD ""
  status := self.status.getD .todo
  priority := self.priority.getD .p2
  capabilityTags := self.capabilityTags
  ownerAgentId := none
  claimExpiresAt := none
  artifactRefs := self.artifactRefs
  acceptance := self.acceptance
  createdAt := now
  updatedAt := now

inductive LeaseMode where
  | exclusive | sharedRead | review | intent
  deriving DecidableEq

/-- Two leases of these modes cannot be held on overlapping targets. -/
def LeaseMode.conflictsWith (self other : LeaseMode) : Bool :=
  if self = .intent || other = .intent then false
  else self = .exclusive || other = .exclusive

theorem LeaseMode.conflictsWith_comm (self other : LeaseMode) :
    self.conflictsWith other = other.conflictsWith self := by
  cases self <;> cases other <;> rfl

private def schemeSeparator : List Char := [':', '/', '/']

/-- The canonical form of a lease target. A bare path and a `file` URI share the
path normalisation; the other schemes are compared for equality. -/
def canonicalTargetUri (raw : String) : String :=
  let raw := trimChars raw.toList
  match splitOnceChars schemeSeparator raw with
  | none => "file://" ++ normalizeLeasePath (String.ofList raw)
  | some (scheme, rest) =>
    if toAsciiLowercase (String.ofList scheme) = "file" then
      "file://" ++ normalizeLeasePath (String.ofList rest)
    else
      toAsciiLowercase (String.ofList scheme) ++ "://" ++
        String.ofList (trimEndChars '/' (trimChars rest))

/-- A target whose canonical form no trimming can shorten: an unpadded path, or a rest
of which no white space is left when its slashes at the end are gone. -/
def UnpaddedTarget (raw : String) : Prop :=
  match splitOnceChars schemeSeparator (trimChars raw.toList) with
  | none => Unpadded (leasePattern (String.ofList (trimChars raw.toList)))
  | some (scheme, rest) =>
    if toAsciiLowercase (String.ofList scheme) = "file" then Unpadded (leasePattern (String.ofList rest))
    else ∀ c ∈ (trimEndChars '/' (trimChars rest)).getLast?, isWhiteSpace c = false

private def trimEndSpace (chars : List Char) : List Char := (chars.reverse.dropWhile isWhiteSpace).reverse

private theorem trimEndSpace_sublist (chars : List Char) : (trimEndSpace chars).Sublist chars := by
  have hEnd := reverse_sublist.mpr (chars.reverse.dropWhile_sublist isWhiteSpace)
  rwa [reverse_reverse] at hEnd

private theorem trimEndSpace_eq_self_iff (chars : List Char) :
    trimEndSpace chars = chars ↔ ∀ c ∈ chars.getLast?, isWhiteSpace c = false := by
  unfold trimEndSpace
  constructor
  · intro h c hLast
    have hHead := head?_dropWhile_not isWhiteSpace chars.reverse
    rw [← reverse_reverse (chars.reverse.dropWhile isWhiteSpace), h, head?_reverse, hLast] at hHead
    simpa using hHead
  · intro h
    cases hChars : chars.reverse with
    | nil => simpa using hChars.symm
    | cons last more =>
      have hLast : last ∈ chars.getLast? := by rw [← head?_reverse, hChars, head?_cons, Option.mem_def]
      rw [dropWhile_cons_of_neg (by simp [h last hLast]), ← hChars, reverse_reverse]

private theorem trimChars_scheme {scheme rest : List Char} (h : ∀ c ∈ scheme.head?, isWhiteSpace c = false) :
    trimChars (scheme ++ schemeSeparator ++ rest) = scheme ++ schemeSeparator ++ trimEndSpace rest := by
  have hStart : (scheme ++ schemeSeparator ++ rest).dropWhile isWhiteSpace = scheme ++ schemeSeparator ++ rest := by
    cases scheme with
    | nil => rfl
    | cons first more => exact dropWhile_cons_of_neg (by simp [h first rfl])
  unfold trimChars trimEndSpace
  rw [hStart, reverse_append, dropWhile_append]
  split
  · rename_i hNone
    rw [isEmpty_iff.mp hNone, reverse_nil, append_nil, reverse_append]
    change (schemeSeparator.reverse ++ scheme.reverse).reverse = scheme ++ schemeSeparator
    rw [← reverse_append, reverse_reverse]
  · rw [reverse_append, reverse_reverse]

private theorem splitOnceChars_eq {raw scheme rest : List Char}
    (h : splitOnceChars schemeSeparator raw = some (scheme, rest)) : raw = scheme ++ schemeSeparator ++ rest := by
  induction raw generalizing scheme with
  | nil => cases h
  | cons c more ih =>
    unfold splitOnceChars at h
    split_ifs at h with hHere
    · cases h
      obtain ⟨tail, hTail⟩ := isPrefixOf_iff_prefix.mp hHere
      rw [← hTail, drop_left, nil_append]
    · obtain ⟨⟨before, after⟩, hMore, hIs⟩ := Option.map_eq_some_iff.mp h
      cases hIs
      rw [ih hMore, cons_append, cons_append]

private theorem splitOnceChars_lower {raw scheme rest : List Char}
    (h : splitOnceChars schemeSeparator raw = some (scheme, rest)) (other : List Char) :
    splitOnceChars schemeSeparator (scheme.map Char.toLower ++ schemeSeparator ++ other) =
      some (scheme.map Char.toLower, other) := by
  induction raw generalizing scheme with
  | nil => cases h
  | cons c more ih =>
    unfold splitOnceChars at h
    split_ifs at h with hHere
    · cases h
      rfl
    · obtain ⟨⟨before, after⟩, hMore, hIs⟩ := Option.map_eq_some_iff.mp h
      cases hIs
      have hNot : schemeSeparator.isPrefixOf
          (c.toLower :: (before.map Char.toLower ++ schemeSeparator ++ other)) = false := by
        refine Bool.eq_false_iff.mpr fun hThere => hHere ?_
        rw [splitOnceChars_eq hMore]
        -- the two characters behind the colon are in the scheme, or they start the separator
        match before with
        | [] => simp [schemeSeparator] at hThere
        | [second] => simp [schemeSeparator] at hThere
        | second :: third :: others =>
          simp only [schemeSeparator, map_cons, cons_append, List.isPrefixOf, Bool.and_eq_true,
            Bool.and_true, beq_iff_eq] at hThere ⊢
          obtain ⟨hFirst, hSecond, hThird⟩ := hThere
          exact ⟨((toLower_eq_iff (by decide)).mp hFirst.symm).symm, ((toLower_eq_iff (by decide)).mp hSecond.symm).symm,
            ((toLower_eq_iff (by decide)).mp hThird.symm).symm⟩
      rw [map_cons, cons_append, cons_append, splitOnceChars, hNot, if_neg Bool.false_ne_true, ih hMore,
        Option.map_some]

private theorem canonicalTargetUri_file (p : String) : canonicalTargetUri ("file://" ++ normalizeLeasePath p) =
    "file://" ++ normalizeLeasePath (String.ofList (trimEndSpace (normalizeLeasePath p).toList)) := by
  have hText : ("file://" ++ normalizeLeasePath p).toList =
      ['f', 'i', 'l', 'e'] ++ schemeSeparator ++ (normalizeLeasePath p).toList := String.toList_append
  have hSplit : ∀ other, splitOnceChars schemeSeparator (['f', 'i', 'l', 'e'] ++ schemeSeparator ++ other) =
      some (['f', 'i', 'l', 'e'], other) := fun _ => rfl
  simp only [canonicalTargetUri]
  rw [hText, trimChars_scheme (by simp [isWhiteSpace]), hSplit]
  exact if_pos (by decide +kernel)

private theorem file_idem_iff (p : String) : canonicalTargetUri ("file://" ++ normalizeLeasePath p) =
    "file://" ++ normalizeLeasePath p ↔ Unpadded (leasePattern p) := by
  rw [canonicalTargetUri_file, String.append_right_inj, ← normalizeLeasePath_idem_iff]
  have hEnd := trimEndSpace_sublist (normalizeLeasePath p).toList
  constructor
  · intro h
    have hLength := (normalizeLeasePath_sublist (String.ofList (trimEndSpace (normalizeLeasePath p).toList))).length_le
    rw [h, length_map, String.toList_ofList] at hLength
    rw [hEnd.eq_of_length_le (Nat.le_trans hLength (trimChars_sublist _).length_le), String.ofList_toList] at h
    exact h
  · intro h
    have hTrimmed := (trimChars_normalizeLeasePath_iff p).mpr ((normalizeLeasePath_idem_iff p).mp h)
    rw [(trimEndSpace_eq_self_iff _).mpr ((trimChars_eq_self_iff _).mp hTrimmed).2, String.ofList_toList, h]

private theorem trimEndChars_sublist (c : Char) (chars : List Char) : (trimEndChars c chars).Sublist chars := by
  have hEnd := reverse_sublist.mpr (chars.reverse.dropWhile_sublist (· = c))
  rwa [reverse_reverse] at hEnd

private theorem toList_canonicalTargetUri {raw : String} {scheme rest : List Char}
    (hSplit : splitOnceChars schemeSeparator (trimChars raw.toList) = some (scheme, rest))
    (hFile : toAsciiLowercase (String.ofList scheme) ≠ "file") : (canonicalTargetUri raw).toList =
      scheme.map Char.toLower ++ schemeSeparator ++ trimEndChars '/' (trimChars rest) := by
  simp only [canonicalTargetUri, hSplit]
  rw [if_neg hFile, String.toList_append, String.toList_append, toAsciiLowercase]
  simp only [String.toList_ofList]
  rfl

private theorem other_idem_iff {raw : String} {scheme rest : List Char}
    (hSplit : splitOnceChars schemeSeparator (trimChars raw.toList) = some (scheme, rest))
    (hFile : toAsciiLowercase (String.ofList scheme) ≠ "file") :
    canonicalTargetUri (canonicalTargetUri raw) = canonicalTargetUri raw ↔
      ∀ c ∈ (trimEndChars '/' (trimChars rest)).getLast?, isWhiteSpace c = false := by
  generalize hKept : trimEndChars '/' (trimChars rest) = kept
  have hText := toList_canonicalTargetUri hSplit hFile
  have hHead : ∀ c ∈ (scheme.map Char.toLower).head?, isWhiteSpace c = false := by
    intro c hMem
    cases scheme with
    | nil => cases hMem
    | cons first more =>
      cases hMem
      rw [isWhiteSpace_toLower]
      refine ((trimChars_eq_self_iff _).mp (trimChars_idem raw.toList)).1 first ?_
      rw [splitOnceChars_eq hSplit]
      rfl
  have hAgain := splitOnceChars_lower hSplit (trimEndSpace kept)
  rw [hKept] at hText
  rw [← trimChars_scheme hHead, ← hText] at hAgain
  have hTwice : (scheme.map Char.toLower).map Char.toLower = scheme.map Char.toLower := by
    rw [map_map]
    exact map_congr_left fun c _ => toLower_toLower c
  have hOther : toAsciiLowercase (String.ofList (scheme.map Char.toLower)) ≠ "file" := by
    rw [toAsciiLowercase, String.toList_ofList, hTwice]
    rwa [toAsciiLowercase, String.toList_ofList] at hFile
  rw [← String.toList_inj, toList_canonicalTargetUri hAgain hOther, hText, hTwice, append_cancel_left_eq,
    ← trimEndSpace_eq_self_iff]
  have hStart : ∀ c ∈ kept.head?, isWhiteSpace c = false := by
    intro c hFirst
    have hPart : kept <+: trimChars rest := by
      have hEnd := reverse_prefix.mpr (dropWhile_suffix (l := (trimChars rest).reverse) (· = '/'))
      rwa [reverse_reverse, ← trimEndChars, hKept] at hEnd
    obtain ⟨more, hMore⟩ := hPart
    refine ((trimChars_eq_self_iff _).mp (trimChars_idem rest)).1 c ?_
    rw [← hMore, head?_append, hFirst]
    rfl
  constructor
  · intro h
    refine (trimEndSpace_sublist kept).eq_of_length_le ?_
    exact Nat.le_trans (Nat.le_of_eq (congrArg List.length h).symm) ((trimEndChars_sublist _ _).trans (trimChars_sublist _)).length_le
  · intro h
    rw [h, (trimChars_eq_self_iff kept).mpr ⟨hStart, (trimEndSpace_eq_self_iff kept).mp h⟩, ← hKept]
    unfold trimEndChars
    rw [reverse_reverse, dropWhile_idempotent]

theorem canonicalTargetUri_idem_iff (raw : String) :
    canonicalTargetUri (canonicalTargetUri raw) = canonicalTargetUri raw ↔ UnpaddedTarget raw := by
  cases hSplit : splitOnceChars schemeSeparator (trimChars raw.toList) with
  | none =>
    have hForm : canonicalTargetUri raw = "file://" ++ normalizeLeasePath (String.ofList (trimChars raw.toList)) := by
      simp only [canonicalTargetUri, hSplit]
    rw [hForm, file_idem_iff, UnpaddedTarget, hSplit]
  | some parts =>
    obtain ⟨scheme, rest⟩ := parts
    by_cases hFile : toAsciiLowercase (String.ofList scheme) = "file"
    · have hForm : canonicalTargetUri raw = "file://" ++ normalizeLeasePath (String.ofList rest) := by
        simp only [canonicalTargetUri, hSplit, if_pos hFile]
      rw [hForm, file_idem_iff]
      simp only [UnpaddedTarget, hSplit, if_pos hFile]
    · rw [other_idem_iff hSplit hFile]
      simp only [UnpaddedTarget, hSplit, if_neg hFile]

theorem lease_keys_canonical (target : String) :
    (canonicalTargetUri (canonicalTargetUri target) = canonicalTargetUri target ∧
      normalizeLeasePath (normalizeLeasePath target) = normalizeLeasePath target) ↔
    UnpaddedTarget target ∧ Unpadded (leasePattern target) :=
  and_congr (canonicalTargetUri_idem_iff target) (normalizeLeasePath_idem_iff target)

/-- A space behind the leading slash, or in front of the one at the end, is trimmed the second time only. -/
theorem padded_key_not_canonical :
    normalizeLeasePath "/ src" = " src" ∧ normalizeLeasePath " src" = "src" ∧
    canonicalTargetUri "artifact://a /" = "artifact://a " ∧ canonicalTargetUri "artifact://a " = "artifact://a" := by
  decide +kernel

/-- Two canonical targets contend for one resource. -/
def targetsOverlap (a b : String) : Bool :=
  match stripPrefix "file://" a, stripPrefix "file://" b with
  | some pa, some pb => pathsOverlap pa pb
  | none, none => a = b
  | _, _ => false

theorem targetsOverlap_comm (a b : String) : targetsOverlap a b = targetsOverlap b a := by
  unfold targetsOverlap
  cases stripPrefix "file://" a <;> cases stripPrefix "file://" b
  · exact decide_eq_decide.mpr eq_comm
  · rfl
  · rfl
  · exact pathsOverlap_comm _ _

structure WorkLease where
  id : WorkLeaseId
  agentId : AgentId
  taskId : TaskId
  projectId : Option ProjectId
  pathGlob : String
  targetUri : Option String
  mode : LeaseMode
  fencingToken : Option Int
  acquiredAt : Timestamp
  expiresAt : Timestamp
  deriving DecidableEq

/-- The resource of a lease. Rows older than targets have only a glob. -/
def WorkLease.resourceKey (lease : WorkLease) : String :=
  lease.targetUri.getD (canonicalTargetUri lease.pathGlob)

inductive HandoffStatus where
  | opened | ready | accepted | rejected | expired
  deriving DecidableEq

def HandoffStatus.asStr : HandoffStatus → String
  | .opened => "open"
  | .ready => "ready"
  | .accepted => "accepted"
  | .rejected => "rejected"
  | .expired => "expired"

structure HandoffContract where
  id : HandoffId
  fromWorkUnitId : WorkUnitId
  toWorkUnitId : WorkUnitId
  requiredArtifactIds : List String
  requiredState : Option String
  checklist : List String
  ownerAgentId : Option AgentId
  acceptedByAgentId : Option AgentId
  status : HandoffStatus
  notes : Option String
  requiredChanges : List String
  createdAt : Timestamp
  updatedAt : Timestamp
  deriving DecidableEq

structure NewHandoffContract where
  fromWorkUnitId : WorkUnitId
  toWorkUnitId : WorkUnitId
  requiredArtifactIds : List String
  requiredState : Option String
  checklist : List String
  ownerAgentId : Option AgentId

def NewHandoffContract.intoContract (self : NewHandoffContract) (id : HandoffId) (now : Timestamp) :
    HandoffContract where
  id := id
  fromWorkUnitId := self.fromWorkUnitId
  toWorkUnitId := self.toWorkUnitId
  requiredArtifactIds := self.requiredArtifactIds
  requiredState := self.requiredState
  checklist := self.checklist
  ownerAgentId := self.ownerAgentId
  acceptedByAgentId := none
  status := .opened
  notes := none
  requiredChanges := []
  createdAt := now
  updatedAt := now

inductive SessionStepStatus where
  | pending | inProgress | completed | canceled
  deriving DecidableEq

structure AgentSessionPlanStep where
  content : String
  status : SessionStepStatus
  deriving DecidableEq

structure AgentSession where
  id : AgentSessionId
  agentId : AgentId
  parentAgentId : Option AgentId
  startedAt : Timestamp
  endedAt : Option Timestamp
  planSteps : List AgentSessionPlanStep
  metadata : JsonValue

inductive SessionArtifactKind where
  | file | url | diff
  deriving DecidableEq

structure SessionArtifact where
  id : SessionArtifactId
  sessionId : AgentSessionId
  kind : SessionArtifactKind
  reference : String
  metadata : JsonValue
  createdAt : Timestamp

inductive SignalKind where
  | stop (reason : Option String)
  | elicit (prompt : String) (choices : List String)
  | authRequired (scope : String)
  | interventionAccepted (choice : String)

inductive AgentActionKind where
  | suggestTask (title reason : String)
  | suggestSplit (parent : TaskId) (subtasks : List String)
  | suggestPriority (task : TaskId) (suggested : Priority) (reason : String)
  | summarizeProject (projectId : ProjectId) (summary : String)
  | suggestNextAction (text : String)

structure AgentAction where
  agentName : String
  kind : AgentActionKind
  createdAt : Timestamp

end Daruma
