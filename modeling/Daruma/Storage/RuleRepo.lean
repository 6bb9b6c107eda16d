import Daruma.Storage.PlanRepo

/-! The projection of lifecycle rules, and what the rule engine reads: the
effective rules of a scope chain and the state a check needs. -/
namespace Daruma

abbrev Rules := KeyedTable RuleId Rule Rule.id

namespace RuleRepo

def get (db : Database) (id : RuleId) : Option Rule := db.rules.find? id

def listForScope (db : Database) (scope : RuleScope) : List Rule :=
  orderBy Rule.ruleKey (db.rules.rows.filter fun rule => rule.scope = scope)

def taskContext (db : Database) (id : TaskId) : Option (Option ProjectId × String) :=
  (db.tasks.find? id).map fun task => (task.projectId, task.title)

def taskPlanIds (db : Database) (id : TaskId) : List PlanId :=
  (PlanRepo.listPlansForTask db id).map Plan.id

def planParentId (db : Database) (id : PlanId) : Option (Option PlanId) :=
  (db.plans.find? id).map Plan.parentPlanId

def runPlanId (db : Database) (id : RunId) : Option PlanId :=
  (db.runs.find? id).map Run.planId

/-- Whether a rule scope covers a stored task. A task scope covers none: it has
no ceiling to count. -/
def inScope (db : Database) (scope : RuleScope) (task : Task) : Bool :=
  match scope with
  | .tenant => true
  | .project id => task.projectId = some id
  | .plan id => db.planTasks.contains (id, task.id)
  | .task _ => false

/-- `ORDER BY started_at, id`, a missing start first. -/
def startedBefore (a b : Task) : Prop :=
  match a.startedAt, b.startedAt with
  | none, none => a.id.uuid ≤ b.id.uuid
  | none, some _ => True
  | some _, none => False
  | some s, some t => s < t ∨ (s = t ∧ a.id.uuid ≤ b.id.uuid)

instance : DecidableRel startedBefore := fun a b => by
  unfold startedBefore
  split <;> infer_instance

def inProgressTaskIds (db : Database) (scope : RuleScope) : List TaskId :=
  ((db.tasks.rows.filter fun task => task.status = .inProgress && inScope db scope task).insertionSort
    startedBefore).map Task.id

def enabledRules (rules : Rules) (scope : RuleScope) (trigger : RuleTrigger) : List Rule :=
  rules.rows.filter fun rule => rule.scope = scope && rule.trigger = trigger && rule.enabled

/-- Let an inner rule replace the outer one of its key, unless it weakens a rule
that forbids an override. -/
def chooseRule (depth : Nat) (chosen : List (Nat × Rule)) (rule : Rule) : List (Nat × Rule) :=
  match chosen.find? fun entry => entry.2.ruleKey = rule.ruleKey with
  | some (chosenDepth, incumbent) =>
    if depth ≤ chosenDepth then chosen
    else if rule.mode.strictness < incumbent.mode.strictness && !incumbent.overrideAllowed then chosen
    else chosen.map fun entry => if entry.2.ruleKey = rule.ruleKey then (depth, rule) else entry
  | none => chosen ++ [(depth, rule)]

/-- The choice of each key along a chain, outermost scope first. -/
def chosenRules (rules : Rules) (trigger : RuleTrigger) :
    Nat → List (Nat × Rule) → List RuleScope → List (Nat × Rule)
  | _, chosen, [] => chosen
  | depth, chosen, scope :: inner =>
    chosenRules rules trigger (depth + 1)
      ((enabledRules rules scope trigger).foldl (chooseRule depth) chosen) inner

def effectiveRules (rules : Rules) (chain : List RuleScope) (trigger : RuleTrigger) : List Rule :=
  orderBy Rule.ruleKey
    (((chosenRules rules trigger 0 [] chain).map Prod.snd).filter fun rule => rule.mode ≠ .off)

/-- The unique index over scope and key refuses a row. -/
def keyTaken (rules : Rules) (rule : Rule) : Bool :=
  rules.rows.any fun other => other.scope = rule.scope && other.ruleKey = rule.ruleKey && other.id ≠ rule.id

/-- Insert a rule. The row of its id keeps its scope, trigger and creation time. -/
def upsert (rules : Rules) (rule : Rule) : Result Rules :=
  let row := match rules.find? rule.id with
    | some old =>
      { rule with scope := old.scope, trigger := old.trigger, createdAt := old.createdAt }
    | none => rule
  if keyTaken rules row then
    .error (.storage "UNIQUE constraint failed: index 'idx_lifecycle_rules_scope_key'")
  else .ok (rules.upsert row)

def applyEvent (rules : Rules) (envelope : EventEnvelope) : Result Rules :=
  match envelope.payload with
  | .rule (.ruleCreated rule) | .rule (.ruleUpdated rule) => upsert rules rule
  | .rule (.ruleDisabled ruleId instant) =>
    .ok (rules.modify ruleId fun rule => { rule with enabled := false, updatedAt := instant })
  | .rule (.ruleDeleted ruleId) => .ok (rules.erase ruleId)
  | _ => .ok rules

end RuleRepo
end Daruma
