import Daruma.Core.LifecycleGate
import Daruma.Storage.EvidenceRepo
import Daruma.Storage.RuleRepo

/-! The gate that evaluates stored lifecycle rules against the recorded evidence
and the state of the tasks. -/
namespace Daruma
namespace RuleEngine

/-- The evidence that satisfies a requirement: its kind, target, required fields
and least version. The two requirements read from state are never asked for
evidence. -/
def requirementEvidence : Requirement → EvidenceKind × Option String × List String × Option String
  | .readArtifact docRef minVersion => (.documentReadAck, some docRef, [], some minVersion)
  | .independentTestVerification _ sourceRevision =>
    (.artifactCreated, some ("test-verification:" ++ sourceRevision), [], none)
  | .createArtifact artifactKind => (.artifactCreated, some artifactKind, [], none)
  | .impactCheck target requiredFields => (.impactAssessment, some target, requiredFields, none)
  | .decisionRecord requiredFields => (.decisionRecord, none, requiredFields, none)
  | .completionNote requiredFields => (.completionNote, none, requiredFields, none)
  | .ownerRequired => (.ownerAssigned, none, [], none)
  | .documentLinked => (.artifactCreated, none, [], none)
  | .wipLimit _ => (.artifactCreated, none, [], none)
  | .acceptanceCriteriaRequired => (.acceptanceCriteriaDefined, none, [], none)
  | .riskCheck target requiredFields => (.riskCheckCompleted, some target, requiredFields, none)

private def isHexDigit (c : Char) : Bool :=
  c.isDigit || ('a' ≤ c && c ≤ 'f') || ('A' ≤ c && c ≤ 'F')

def requirementSatisfied (db : Database) (rule : Rule) (chain : List RuleScope) : EvidenceCheck :=
  match rule.requirement with
  | .independentTestVerification executorId sourceRevision =>
    let validRevision := (byteLength sourceRevision = 40 || byteLength sourceRevision = 64) &&
      sourceRevision.toList.all isHexDigit
    have satisfied := match chain.getLast? with
      | some (.task id) => validRevision &&
          EvidenceRepo.hasIndependentTestVerification db id executorId sourceRevision
      | _ => false
    ⟨satisfied, if satisfied then none else some
      "requires a live passing test attestation for this task and pinned revision from an authenticated actor other than executor_id"⟩
  | .documentLinked =>
    have satisfied := match chain.getLast? with
      | some (.task id) => EvidenceRepo.taskHasLiveDocument db id
      | _ => false
    ⟨satisfied, if satisfied then none else some
      "requires at least one non-archived document linked to this task"⟩
  | requirement =>
    let (kind, target, requiredFields, minVersion) := requirementEvidence requirement
    EvidenceRepo.hasLiveEvidence db chain kind target requiredFields minVersion

/-- The batch moves a stored task out of progress. -/
def leavesBatch (check : GateCheck) (id : TaskId) : Bool :=
  check.pendingStatuses.any fun entry => entry.1 = id && entry.2 ≠ .inProgress

def pendingInScope (db : Database) (scope : RuleScope) (task : TaskId) : Bool :=
  match scope with
  | .tenant => true
  | .project id => match RuleRepo.taskContext db task with
      | some (some project, _) => project = id
      | _ => false
  | .plan id => id ∈ RuleRepo.taskPlanIds db task
  | .task _ => false

/-- Count a task that the batch starts, unless it is counted already. -/
def occupyPending (db : Database) (scope : RuleScope) (check : GateCheck) (occupied : List TaskId)
    (entry : TaskId × Status) : List TaskId :=
  if entry.2 ≠ .inProgress ∨ some entry.1 = check.taskId ∨ entry.1 ∈ occupied then occupied
  else if pendingInScope db scope entry.1 then occupied ++ [entry.1]
  else occupied

/-- The tasks that hold a slot of a scope once the batch lands, the task being
started apart. -/
def wipOccupied (db : Database) (scope : RuleScope) (check : GateCheck) : List TaskId :=
  let stored := (RuleRepo.inProgressTaskIds db scope).filter fun id =>
    some id ≠ check.taskId && !leavesBatch check id
  check.pendingStatuses.foldl (occupyPending db scope check) stored

def planParent (db : Database) (staged : List (PlanId × Option PlanId)) (plan : PlanId) : Option PlanId :=
  match staged.find? fun entry => entry.1 = plan with
  | some (_, parent) => parent
  | none => (RuleRepo.planParentId db plan).join

/-- Walk from a plan to its root. Every plan with a parent is staged or stored,
so the number of these bounds the walk. -/
def walkAncestry (db : Database) (staged : List (PlanId × Option PlanId)) :
    Nat → List PlanId → PlanId → Result (List PlanId)
  | 0, path, _ => .ok path
  | steps + 1, path, current =>
    match planParent db staged current with
    | none => .ok path
    | some parent =>
      if parent ∈ path then .error (.conflict s!"cyclic plan scope ancestry at plan {parent}")
      else walkAncestry db staged steps (parent :: path) parent

/-- A plan and its ancestors, root first. -/
def planAncestry (db : Database) (plan : PlanId) (staged : List (PlanId × Option PlanId)) :
    Result (List PlanId) :=
  walkAncestry db staged (staged.length + db.plans.rows.length + 1) [plan] plan

def scopeChain (check : GateCheck) (plans : List PlanId) : List RuleScope :=
  [.tenant] ++ (check.projectId.map RuleScope.project).toList ++ plans.map RuleScope.plan ++
    (check.taskId.map RuleScope.task).toList

def checkPlans (db : Database) (check : GateCheck) : List PlanId :=
  let plans := match check.planId, check.taskId, check.runId with
    | some planId, _, _ => [planId]
    | none, some taskId, _ => check.pendingPlanIds ++ RuleRepo.taskPlanIds db taskId
    | none, none, some runId => (RuleRepo.runPlanId db runId).toList
    | none, none, none => []
  (orderBy Id.uuid plans).dedup

def chainsOf (db : Database) (check : GateCheck) : List PlanId → Result (List (List RuleScope))
  | [] => .ok []
  | plan :: rest =>
    match planAncestry db plan check.pendingPlans with
    | .error e => .error e
    | .ok ancestry =>
      match chainsOf db check rest with
      | .error e => .error e
      | .ok chains => .ok (scopeChain check ancestry :: chains)

def scopeChains (db : Database) (check : GateCheck) : Result (List (List RuleScope)) :=
  let plans := checkPlans db check
  if plans.isEmpty then .ok [scopeChain check []] else chainsOf db check plans

def admits (allowed : Option (List Status)) (carried : Option Status) : Bool :=
  match allowed, carried with
  | none, _ => true
  | some list, some status => status ∈ list
  | some _, none => false

def conditionMatches (condition : Option Condition) (check : GateCheck) : Bool :=
  match condition with
  | none => true
  | some cond =>
    cond.isEmpty || (admits cond.statusFrom check.statusFrom && admits cond.statusTo check.statusTo &&
      match cond.titlePrefix, check.taskTitle with
      | none, _ => true
      | some prefixes, some title => prefixes.any fun start => start.toList.isPrefixOf title.toList
      | some _, none => false)

def warnMessage (rule : Rule) : String :=
  if isBlank rule.message then s!"rule `{rule.ruleKey}` requires `{rule.requirement.typeStr}`"
  else rule.message

def ruleWarning (rule : Rule) : MutationWarning :=
  ⟨"rule_warning:" ++ rule.ruleKey, warnMessage rule, some (rule.id, rule.ruleKey)⟩

/-- A required rule that a chain leaves unsatisfied. -/
structure Acting where
  rule : Rule
  reason : Option String
  chain : List RuleScope
  occupied : List TaskId

/-- What the evaluation of a check has gathered so far. -/
structure Evaluation where
  observations : List RuleObservation
  warnings : List MutationWarning
  acting : List Acting

/-- Whether a rule is satisfied, and the tasks that hold its slots. -/
def satisfaction (db : Database) (check : GateCheck) (chain : List RuleScope) (rule : Rule) :
    EvidenceCheck × List TaskId :=
  match rule.requirement with
  | .wipLimit maxInProgress =>
    let occupied := wipOccupied db rule.scope check
    let satisfied := decide (occupied.length < maxInProgress)
    (⟨satisfied, if satisfied then none else some
      s!"{occupied.length} of {maxInProgress} in_progress slots in the {rule.scope.kind} scope are taken"⟩,
      occupied)
  | _ => (requirementSatisfied db rule chain, [])

/-- Note an advisory rule the first time it comes up. -/
def observe (rule : Rule) (observations : List RuleObservation) : List RuleObservation :=
  if rule.mode = .recommendation ∧ ¬observations.any (fun o => o.ruleId = rule.id) then
    observations ++ [⟨rule.id, rule.ruleKey, rule.updatedAt, false⟩]
  else observations

/-- Evaluate one rule in force on a chain. A rule on several chains acts once. -/
def evaluateRule (db : Database) (check : GateCheck) (chain : List RuleScope) (acc : Evaluation)
    (rule : Rule) : Evaluation :=
  let acc := { acc with observations := observe rule acc.observations }
  if rule.mode = .off ∨ ¬conditionMatches rule.condition check then acc
  else
    let (evidence, occupied) := satisfaction db check chain rule
    if evidence.satisfied then acc
    else match rule.mode with
      | .off => acc
      | .recommendation =>
        if acc.observations.any fun o => o.ruleId = rule.id && o.triggered then acc
        else { acc with
          observations := acc.observations.map fun o =>
            if o.ruleId = rule.id then { o with triggered := true } else o
          warnings := acc.warnings ++ [ruleWarning rule] }
      | .required =>
        if acc.acting.any fun entry => entry.rule.id = rule.id then acc
        else { acc with acting := acc.acting ++ [⟨rule, evidence.reason, chain, occupied⟩] }

def evaluateChain (db : Database) (check : GateCheck) (acc : Evaluation) (chain : List RuleScope) :
    Evaluation :=
  (RuleRepo.effectiveRules db.rules chain check.trigger).foldl (evaluateRule db check chain) acc

def evaluate (db : Database) (check : GateCheck) (chains : List (List RuleScope)) : Evaluation :=
  chains.foldl (evaluateChain db check) ⟨[], [], []⟩

def reachCeiling : EvidenceReach → Nat
  | .tenant => 0
  | .project => 1
  | .plan => 2
  | .selfOnly => 3

/-- The innermost scope of a chain at which evidence recorded now would count.
Elements that the batch is about to create are left out. -/
def advisedScope (reach : EvidenceReach) (chain : List RuleScope) (trigger : RuleTrigger)
    (staged : List (PlanId × Option PlanId)) : Option RuleScope :=
  let last := chain.length - 1
  let start :=
    if reach = .selfOnly then last
    else (chain.findIdx? fun scope => reachCeiling reach ≤ EvidenceRepo.scopeRank scope).getD last
  let createsInnermost :=
    trigger = .projectCreated || trigger = .planCreated || trigger = .taskCreated
  let firstStaged := (chain.findIdx? fun
    | .plan id => staged.any fun entry => entry.1 = id
    | _ => false).getD chain.length
  let finish := min (if createsInnermost then last else chain.length) firstStaged
  ((chain.take finish).drop start).getLast?

def unblockHint (acting : Acting) (trigger : RuleTrigger) (staged : List (PlanId × Option PlanId)) :
    UnblockHint :=
  let rule := acting.rule
  let (kind, target, _, _) := requirementEvidence rule.requirement
  let hint : UnblockHint :=
    { ruleKey := rule.ruleKey, requirementType := rule.requirement.typeStr, reach := none,
      evidenceKind := none, evidenceTarget := none, evidenceScope := none, maxInProgress := none,
      inProgressTaskIds := [], note := none, reason := acting.reason }
  match rule.requirement with
  | .independentTestVerification .. => { hint with
      reach := some .selfOnly, evidenceKind := some kind, evidenceTarget := target,
      evidenceScope := acting.chain.getLast?, note := some ("Verifier submits using its own authenticated identity; " ++
        "payload actor fields do not establish independence.") }
  | .documentLinked => { hint with
      reach := some .selfOnly, note := some ("no evidence to submit: create a document and link it to this task " ++
        "(LinkDocumentToTask / daruma_doc_link_task); archived documents do not count") }
  | .wipLimit maxInProgress =>
    let overrideWay := if rule.overrideAllowed then "or pass force + override_reason"
      else "this rule forbids override"
    { hint with
      evidenceScope := some rule.scope, maxInProgress := some maxInProgress,
      inProgressTaskIds := acting.occupied,
      note := some ("no evidence to submit: complete one of in_progress_task_ids or return it to todo, " ++
        s!"reopen a stuck one without a live claim (daruma_stuck / reconciliation), {overrideWay}") }
  | _ =>
    let advised := advisedScope kind.reach acting.chain trigger staged
    let note := if rule.overrideAllowed then "unsatisfiable before creation; requires override"
      else "unsatisfiable before creation and this rule forbids override; the rule must be relaxed or disabled"
    { hint with
      reach := some kind.reach, evidenceKind := some kind, evidenceTarget := target,
      evidenceScope := advised, note := if advised.isNone then some note else none }

def blockedMessage : List Acting → String
  | [entry] => warnMessage entry.rule
  | acting =>
    let ruleKeys := String.intercalate ", " (acting.map fun entry => entry.rule.ruleKey)
    s!"{acting.length} rules block this transition: {ruleKeys}"

/-- Read a task's project and title when the check carries only its id. -/
def resolveCheck (db : Database) (check : GateCheck) : GateCheck :=
  match check.taskId with
  | some taskId =>
    if check.projectId.isNone || check.taskTitle.isNone then
      match RuleRepo.taskContext db taskId with
      | some (projectId, title) => { check with
          projectId := check.projectId.or projectId
          taskTitle := some (check.taskTitle.getD title) }
      | none => check
    else check
  | none => check

def overrideReason (override : GateOverride) (acting : List Acting) : Option String :=
  let reason := (override.overrideReason.map trim).filter fun text => text ≠ ""
  if override.force && acting.all fun entry => entry.rule.overrideAllowed then reason else none

def decision (check : GateCheck) (override : GateOverride) (found : Evaluation) : GateDecision :=
  if found.acting.isEmpty then
    if found.warnings.isEmpty then .allowed else .warning found.warnings
  else match overrideReason override found.acting with
    | some reason =>
      .overridden (found.acting.map fun entry => ruleWarning entry.rule) found.warnings reason
    | none => .blocked (blockedMessage found.acting) (found.acting.map fun entry => ruleWarning entry.rule) found.warnings
        (found.acting.map fun entry => unblockHint entry check.trigger check.pendingPlans)

/-- The rule engine as a gate. -/
def checkObserved : LifecycleGate := fun db _ _ check override =>
  let check := resolveCheck db check
  match scopeChains db check with
  | .error e => .error e
  | .ok chains =>
    let found := evaluate db check chains
    .ok (decision check override found, found.observations)

end RuleEngine
end Daruma
