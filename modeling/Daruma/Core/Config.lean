import Daruma.Core.LifecycleGate
import Daruma.Library.Stateful
import Daruma.Storage.ActivityFeed
import Daruma.Storage.RelationRepo
import Daruma.Storage.RunRepo
import Daruma.Storage.ProjectRepo

/-! What a command handler is configured with, and the helpers that the builders
of events share. -/
namespace Daruma

open Outcome

/-- The groups that a regular expression captures in a text, when it matches. -/
abbrev Matcher := String → Option (Nat → Option String)

/-- The text functions that other libraries supply. -/
structure TextCodec where
  /-- Compile a regular expression, or say why it is none. -/
  regex : String → Except String Matcher
  /-- RFC 3339 or `YYYY-MM-DD`. -/
  validDate : String → Bool
  lowercase : String → String
  /-- An activity text is a JSON object with a `pipeline_position` that is not null. -/
  jsonHasPosition : String → Bool
  renderHints : List UnblockHint → String
  rfc3339 : Timestamp → String
  isoSeconds : Timestamp → String
  humanMinutes : Timestamp → String

/-- The settings of a handler. All of its repositories are wired. -/
structure Config where
  planOnlyIntake : Bool
  lifecycleGate : Option LifecycleGate
  tenantQuotas : Option TenantQuotas
  auditSettingsValidator : Option (JsonValue → Except String Unit)
  text : TextCodec

/-- A builder of events that writes relations as it goes. The relations are
written to the store at once: an error does not take them back. -/
abbrev Building (α : Type) := Stateful Relations CoreError α

/-- The derived `Debug` form of an identifier. -/
def TaskId.debug (id : TaskId) : String := s!"TaskId({hyphenated id.uuid})"

def TaskId.debugList (ids : List TaskId) : String :=
  "[" ++ String.intercalate ", " (ids.map TaskId.debug) ++ "]"

/-- The derived `Debug` form of a list of plain words. -/
def debugWords (words : List String) : String :=
  "[" ++ String.intercalate ", " (words.map fun word => "\"" ++ word ++ "\"") ++ "]"

/-- `map_err(CoreError::validation)`. -/
def orValidation {α : Type} : Except String α → Result α
  | .ok a => .ok a
  | .error message => .error (.validation message)

/-- `map_err(CoreError::conflict)`. -/
def orConflict {α : Type} : Except String α → Result α
  | .ok a => .ok a
  | .error message => .error (.conflict message)

def requireTask (db : Database) (id : TaskId) : Result Task :=
  okOr (db.tasks.find? id) (.notFound s!"task {id}")

def requirePlan (db : Database) (id : PlanId) : Result Plan :=
  okOr (db.plans.find? id) (.notFound s!"plan {id}")

def nextPosition (members : List PlanTask) : Nat :=
  match members.getLast? with
  | some last => last.position + 1
  | none => 0

def activeRunForPlan (db : Database) (planId : PlanId) : Option RunId :=
  (RunRepo.listActiveForPlan db planId).head?.map Run.id

def bulkOpCap : Nat := 50

def validateBulkCap (n : Nat) : Result Unit :=
  if n = 0 then .error (.validation "bulk op requires at least 1 id")
  else if bulkOpCap < n then .error (.validation s!"bulk size {n} exceeds cap of {bulkOpCap}")
  else .ok ()

/-- Drop repeated ids, keeping each at its first place. -/
def dedupeIds : List TaskId → List TaskId
  | [] => []
  | id :: rest => id :: (dedupeIds rest).filter fun other => other ≠ id

def commentEvents (comment : Comment) : List Event :=
  [.comment (.commentAdded comment),
    .comment (.taskCommented comment.taskId comment.id comment.author
      (String.ofList (comment.body.toList.take 80)))]

def taskCommentEvents (env : Env) (taskId : TaskId) (body : String) (actor : Actor) : List Event :=
  commentEvents (Comment.fromNew ⟨none, taskId, body, none, some .research⟩ (env.fresh 0) actor env.now)

/-- What a repeated creation leaves on the task that its key already names. -/
def redeliveredCreateCommentBody (externalKey : String) (task : NewTask) : String :=
  let description := trim (task.description.getD "")
  s!"Re-delivered create for external_key `{externalKey}` (existing task kept; " ++
    "context recorded here instead of duplicating).\n" ++ s!"Title: {task.title}" ++
    (if description = "" then "" else "\nDescription: " ++ description)

def redeliveredCreateEvents (env : Env) (taskId : TaskId) (externalKey : String) (task : NewTask)
    (actor : Actor) : List Event :=
  taskCommentEvents env taskId (redeliveredCreateCommentBody externalKey task) actor

/-- The trimmed key, or none when nothing is left of it. -/
def normalizedKey (key : Option String) : Option String :=
  (key.map trim).filter fun text => text ≠ ""

def normalizeExternalKey (task : NewTask) : NewTask :=
  { task with externalKey := normalizedKey task.externalKey }

end Daruma
