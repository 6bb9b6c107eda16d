import Mathlib.Init

/-! Identifiers, instants and errors shared by every layer of the server. -/
namespace Daruma

/-- The entities that have a UUIDv7 newtype of their own. -/
inductive IdKind where
  | task | aiOp | workUnit | project | event | agent | claim | device | comment | plan | run
  | runNote | agentSession | sessionArtifact | relation | document | workLease | artifact
  | artifactRelation | rule | evidence | handoff | token
  deriving DecidableEq

/-- The human-readable text in front of a displayed identifier. -/
def IdKind.label : IdKind → String
  | .task => "tsk"
  | .aiOp => "aiop"
  | .workUnit => "wu"
  | .project => "prj"
  | .event => "evt"
  | .agent => "agt"
  | .claim => "clm"
  | .device => "dev"
  | .comment => "cmt"
  | .plan => "pln"
  | .run => "run"
  | .runNote => "rnt"
  | .agentSession => "ags"
  | .sessionArtifact => "saf"
  | .relation => "rel"
  | .document => "doc"
  | .workLease => "wls"
  | .artifact => "art"
  | .artifactRelation => "artrel"
  | .rule => "rule"
  | .evidence => "ev"
  | .handoff => "hof"
  | .token => "tok"

/-- A UUID newtype. The 128-bit value is a natural number; a fresh identifier
is supplied by the caller of a function that mints one. -/
structure Id (kind : IdKind) where
  uuid : Nat
  deriving DecidableEq

instance {kind : IdKind} : LawfulBEq (Id kind) := inferInstance

abbrev TaskId := Id .task
abbrev WorkUnitId := Id .workUnit
abbrev ProjectId := Id .project
abbrev EventId := Id .event
abbrev AgentId := Id .agent
abbrev ClaimId := Id .claim
abbrev DeviceId := Id .device
abbrev CommentId := Id .comment
abbrev PlanId := Id .plan
abbrev RunId := Id .run
abbrev RunNoteId := Id .runNote
abbrev AgentSessionId := Id .agentSession
abbrev SessionArtifactId := Id .sessionArtifact
abbrev RelationId := Id .relation
abbrev DocumentId := Id .document
abbrev WorkLeaseId := Id .workLease
abbrev ArtifactId := Id .artifact
abbrev ArtifactRelationId := Id .artifactRelation
abbrev RuleId := Id .rule
abbrev EvidenceId := Id .evidence
abbrev HandoffId := Id .handoff
abbrev TokenId := Id .token

/-- The hyphenated form of a UUID: 32 hexadecimal digits in groups of 8-4-4-4-12. -/
def hyphenated (uuid : Nat) : String :=
  let raw := Nat.toDigits 16 uuid
  let digits := List.replicate (32 - raw.length) '0' ++ raw
  String.intercalate "-" <| List.map String.ofList
    [digits.take 8, (digits.drop 8).take 4, (digits.drop 12).take 4, (digits.drop 16).take 4,
      digits.drop 20]

instance {kind : IdKind} : ToString (Id kind) := ⟨fun id => kind.label ++ "_" ++ hyphenated id.uuid⟩

/-- UTC instants in nanoseconds since the epoch. Stored instants are RFC 3339
text; their comparison is the comparison of the instants. -/
abbrev Timestamp := Int

/-- A number of nanoseconds added to an instant. -/
abbrev Duration := Int

/-- JSON payloads that the server stores and passes on. -/
inductive JsonValue where
  | null
  | bool (value : Bool)
  | number (value : Int)
  | string (value : String)
  | array (items : List JsonValue)
  | object (fields : List (String × JsonValue))

def JsonValue.get? (self : JsonValue) (key : String) : Option JsonValue :=
  match self with
  | .object fields => (fields.find? fun entry => entry.1 = key).map Prod.snd
  | _ => none

/-- The failures a command or a repository call reports. -/
inductive CoreError where
  | notFound (message : String)
  | validation (message : String)
  | conflict (message : String)
  | storage (message : String)
  | unauthorized (message : String)
  | forbidden (message : String)
  | quotaExceeded (resource : String) (limit current : Int)
  | codedConflict (code message : String)
  | unprocessable (code message : String)
  deriving DecidableEq

abbrev Result (α : Type) := Except CoreError α

end Daruma
