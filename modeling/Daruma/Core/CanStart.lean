import Daruma.Core.Refusals
import Daruma.Core.RuleAudit

/-! The readiness of a task to start: the gate is asked, in a dry run, what it would
say to the transition. -/
namespace Daruma

open List Stateful
open GateStage (consult gated Trail)
open RuleEngine (decision resolveCheck Evaluation blockedMessage chainsOf warnMessage walkAncestry
  scopeChains Acting evaluate)

structure CanStartBlocker where
  taskId : TaskId
  title : String
  status : Status

structure CanStartRule where
  ruleKey : String
  message : String
  deriving DecidableEq

structure CanStart where
  ready : Bool
  blockers : List CanStartBlocker
  ruleBlockers : List CanStartRule
  ruleWarnings : List CanStartRule
  reason : String

namespace PlanReadiness

/-- Stands in where a gate does not name a rule. -/
def unnamedRule : String := "unnamed_rule"

def ruleKeyOf (outcome : MutationWarning) : Option String :=
  outcome.rule.map Prod.snd

def warningRuleKey (warning : MutationWarning) : String :=
  (ruleKeyOf warning).getD ((stripPrefix "rule_warning:" warning.code).getD warning.code)

/-- What a warning says, without its code. -/
def warnedRule (warning : MutationWarning) : CanStartRule :=
  ⟨warningRuleKey warning, warning.message⟩

def outcomeRule (outcome : MutationWarning) : CanStartRule :=
  ⟨(ruleKeyOf outcome).getD unnamedRule, outcome.message⟩

/-- The outcomes of a refusal, or the refusal itself where the gate lists none. -/
def blockedOutcomes (message : String) (outcomes : List MutationWarning) : List MutationWarning :=
  if outcomes.isEmpty then [⟨"", message, none⟩] else outcomes

def readDecision (read : List CanStartRule × List CanStartRule) :
    GateDecision → List CanStartRule × List CanStartRule
  | .allowed => read
  | .warning warnings => (read.1, read.2 ++ warnings.map warnedRule)
  -- Only a gate that ignores the empty override: what it bypassed stops a normal start.
  | .overridden bypassed warnings _ => (read.1 ++ bypassed.map warnedRule, read.2 ++ warnings.map warnedRule)
  | .blocked message outcomes warnings _ =>
    (read.1 ++ (blockedOutcomes message outcomes).map outcomeRule, read.2 ++ warnings.map outcomeRule)

/-- The rules that block the start of a task, and those that warn of it. -/
def ruleReadiness (db : Database) (env : Env) (gate : Option (LifecycleGate × Actor)) (task : Task) :
    Result (List CanStartRule × List CanStartRule) :=
  match gate with
  | none => .ok ([], [])
  | some (gate, actor) =>
    -- A transition to the same status passes no gate.
    if task.status = .inProgress then .ok ([], [])
    else (LifecycleGate.deriveGateChecks [.task (.taskStatusChanged task.id task.status .inProgress)]).foldlM
      (fun read check => do
        let (decision, _) ← gate db env actor check ⟨false, none⟩
        pure (readDecision read decision)) ([], [])

/-- The tasks that are to be done before this one. Nothing enforces them on a start. -/
def openBlockers (db : Database) (id : TaskId) : List CanStartBlocker :=
  let sources := (RelationRepo.listBlockers db.relations id).map Relation.source
  (db.tasks.rows.filter fun task => task.id ∈ sources && task.status ≠ .done).map fun task =>
    ⟨task.id, task.title, task.status⟩

/-- Can this task be moved to in progress right now? -/
def canStart (db : Database) (env : Env) (gate : Option (LifecycleGate × Actor)) (id : TaskId) : Result CanStart := do
  let task ← requireTask db id
  let blockers := openBlockers db task.id
  let (ruleBlockers, ruleWarnings) ← ruleReadiness db env gate task
  let t := blockers.length
  let r := ruleBlockers.length
  pure {
    ready := !task.status.isTerminal && blockers.isEmpty && ruleBlockers.isEmpty
    blockers := blockers
    ruleBlockers := ruleBlockers
    ruleWarnings := ruleWarnings
    reason :=
      if task.status.isTerminal then "terminal_task"
      else if t = 0 ∧ r = 0 then "ready"
      else if t = 0 then s!"blocked_by_{r}_rule(s)"
      else if r = 0 then s!"blocked_by_{t}_task(s)"
      else s!"blocked_by_{t}_task(s)_and_{r}_rule(s)" }

end PlanReadiness

def Event.blockedRule : Event → Option CanStartRule
  | .audit (.ruleFired _ ruleKey .blocked _ _ _ _ _ message _ _) => some ⟨ruleKey, message⟩
  | _ => none

def CoreError.IsRuleBlocked (e : CoreError) : Prop := ∃ detail, e = .conflict ("rule_blocked: " ++ detail)

theorem CoreError.IsStorage.not_ruleBlocked {e : CoreError} (h : e.IsStorage) : ¬e.IsRuleBlocked := by
  obtain ⟨detail, rfl⟩ := h
  rintro ⟨_, hIs⟩
  cases hIs

/-- An event that follows the change to in progress in its batch. -/
def Event.FollowsStart : Event → Prop
  | .task (.taskReopened ..) | .comment _ => True
  | .plan (.planStatusChanged _ _ toStatus) => toStatus = .completed
  | _ => False

theorem LifecycleGate.deriveGateChecks_start {first : Event} {rest : List Event} (h : ∀ event ∈ rest, event.FollowsStart) :
    deriveGateChecks (first :: rest) = deriveGateChecks [first] := by
  -- one event of them derives no check, no plan, no membership and no status
  have hSilent : ∀ event : Event, event.FollowsStart → deriveCheck event = none ∧
      stagedPlans [event] = [] ∧ stagedMemberships [event] = [] ∧ ∀ statuses, stageStatus statuses event = statuses := by
    intro event hFollows
    unfold Event.FollowsStart at hFollows
    split at hFollows
    · exact ⟨rfl, rfl, rfl, fun _ => rfl⟩
    · exact ⟨rfl, rfl, rfl, fun _ => rfl⟩
    · subst hFollows
      exact ⟨if_neg fun hIs => PlanStatus.noConfusion hIs.2, rfl, rfl, fun _ => rfl⟩
    · exact hFollows.elim
  induction rest with
  | nil => rfl
  | cons event rest ih =>
    obtain ⟨hEvent, hRest⟩ := forall_mem_cons.mp h
    obtain ⟨hCheck, hPlans, hMembers, hStatus⟩ := hSilent event hEvent
    have hAllPlans : stagedPlans (first :: event :: rest) = stagedPlans (first :: rest) := by
      have hAppend : ∀ a b, stagedPlans (a ++ b) = stagedPlans a ++ stagedPlans b := fun _ _ => filterMap_append
      change stagedPlans ([first] ++ ([event] ++ rest)) = stagedPlans ([first] ++ rest)
      rw [hAppend, hAppend [event], hPlans, nil_append, hAppend]
    have hAllMembers : stagedMemberships (first :: event :: rest) = stagedMemberships (first :: rest) := by
      have hAppend : ∀ a b, stagedMemberships (a ++ b) = stagedMemberships a ++ stagedMemberships b :=
        fun _ _ => filterMap_append
      change stagedMemberships ([first] ++ ([event] ++ rest)) = stagedMemberships ([first] ++ rest)
      rw [hAppend, hAppend [event], hMembers, nil_append, hAppend]
    have hAllStatuses : stagedStatuses (first :: event :: rest) = stagedStatuses (first :: rest) := by
      rw [stagedStatuses, stagedStatuses, foldl_cons, foldl_cons, hStatus, foldl_cons]
    have hStaged : stageCheck (first :: event :: rest) = stageCheck (first :: rest) := by
      funext check
      unfold stageCheck
      rw [hAllPlans, hAllMembers, hAllStatuses]
    have hChecks : (first :: event :: rest).filterMap deriveCheck = (first :: rest).filterMap deriveCheck := by
      change ([first] ++ (event :: rest)).filterMap deriveCheck = ([first] ++ rest).filterMap deriveCheck
      rw [filterMap_append, filterMap_append, filterMap_cons_none hCheck]
    rw [← ih hRest, deriveGateChecks, deriveGateChecks, hStaged, hChecks]

namespace TaskCommands

variable {db : Database} {env : Env} {actor : Actor} {id : TaskId} {task : Task} {comment : Option TransitionComment}
  {note : Option (String × Option CommentKind)}

theorem emitStatusTransitionEvents_start (hPosition : TaskRepo.pipelinePosition db task.id = none) (now : Timestamp)
    (relations : Relations) : emitStatusTransitionEvents db task .inProgress actor now relations =
      (.ok (if task.status = .inProgress then []
        else .task (.taskStatusChanged task.id task.status .inProgress) ::
          closureEvents task.id task.status .inProgress actor now), relations) := by
  have hDirect : ensureDirectStatusWrite db task.id .inProgress = .ok () := by
    unfold ensureDirectStatusWrite
    rw [hPosition]
  unfold emitStatusTransitionEvents
  rw [bind_eq]
  dsimp only [Stateful.lift]
  rw [hDirect]
  dsimp only
  unfold statusTransitionEvents
  by_cases hSame : task.status = .inProgress
  · rw [if_pos hSame, if_pos hSame]
    rfl
  · rw [if_neg hSame, if_neg hSame]
    change (Except.ok (([.task (.taskStatusChanged task.id task.status .inProgress)] ++
      closureEvents task.id task.status .inProgress actor now) ++ [] ++ []), relations) = _
    rw [append_nil, append_nil]
    rfl

theorem setStatus_start (hTask : db.tasks.find? id = some task) (hPosition : TaskRepo.pipelinePosition db id = none)
    (hNote : transitionNote comment = .ok note) (relations : Relations) :
    ∃ built, setStatus db env actor id .inProgress comment relations = (.ok built, relations) ∧
      ((task.status = .inProgress ∧ built = []) ∨ (task.status ≠ .inProgress ∧
        ∃ rest, built = .task (.taskStatusChanged task.id task.status .inProgress) :: rest ∧
          ∀ event ∈ rest, event.FollowsStart)) := by
  have hId : task.id = id := KeyedTable.key_of_find? hTask
  have hFound : requireTask db id = .ok task := by
    unfold requireTask
    rw [hTask]
    rfl
  have hEmitted := @emitStatusTransitionEvents_start _ actor _ (hId ▸ hPosition) env.now relations
  have hClosure : ∀ event ∈ closureEvents task.id task.status .inProgress actor env.now, event.FollowsStart := by
    intro event hMem
    unfold closureEvents at hMem
    split at hMem
    · cases mem_singleton.mp hMem
      trivial
    · split at hMem
      · rename_i hTerminal
        cases hTerminal.2
      · exact absurd hMem not_mem_nil
  unfold setStatus
  rw [bind_eq]
  dsimp only [Stateful.lift]
  rw [hFound]
  dsimp only
  rw [bind_eq]
  dsimp only [Stateful.lift]
  rw [hNote]
  dsimp only
  rw [bind_eq, hEmitted]
  dsimp only
  by_cases hSame : task.status = .inProgress
  · rw [if_pos hSame]
    refine ⟨[], ?_, .inl ⟨hSame, rfl⟩⟩
    cases note <;> rfl
  · rw [if_neg hSame]
    cases note with
    | none => exact ⟨_, rfl, .inr ⟨hSame, _, rfl, hClosure⟩⟩
    | some written =>
      refine ⟨_, rfl, .inr ⟨hSame, _, rfl, fun event hMem => ?_⟩⟩
      rcases mem_append.mp hMem with hMem | hMem
      · exact hClosure event hMem
      · simp only [commentEvents, mem_cons, not_mem_nil, or_false] at hMem
        rcases hMem with rfl | rfl
        · trivial
        · trivial

end TaskCommands

theorem Reconciliation.drain_idle {db : Database} (steps : Nat) : drain db steps ⟨[], [], [], []⟩ = [] := by
  cases steps <;> rfl

namespace Handler

open PlanReadiness

variable {config : Config} {db : Database} {env : Env} {caller : Caller} {claimed actor : Actor} {id : TaskId} {task : Task}
  {comment : Option TransitionComment} {note : Option (String × Option CommentKind)}

theorem draft_start (hTask : db.tasks.find? id = some task) (hPosition : TaskRepo.pipelinePosition db id = none)
    (hNote : TaskCommands.transitionNote comment = .ok note) (relations : Relations) :
    ∃ batch, draft config db env caller actor (.task (.setStatus id .inProgress false none comment)) relations =
        (.ok (batch, []), relations) ∧
      ((task.status = .inProgress ∧ batch = []) ∨ (task.status ≠ .inProgress ∧
        ∃ rest, batch = .task (.taskStatusChanged task.id task.status .inProgress) :: rest ∧
          ∀ event ∈ rest, event.FollowsStart)) := by
  obtain ⟨built, hBuilt, hCases⟩ := @TaskCommands.setStatus_start _ (env.part 1) actor _ _ _ _ hTask hPosition hNote relations
  have hAuthenticated : ∀ event : Event, event.FollowsStart → (authenticated caller event).FollowsStart := by
    intro event hFollows
    unfold Event.FollowsStart at hFollows
    split at hFollows
    · trivial
    · trivial
    · exact hFollows
    · exact hFollows.elim
  let events := built.map (authenticated caller)
  have hDraft : draft config db env caller actor (.task (.setStatus id .inProgress false none comment)) relations =
      (.ok (events ++ (Reconciliation.planReconciliations db events).map .plan, []), relations) := by
    unfold draft
    rw [bind_eq]
    change (do
      let built ← buildEvents config db (env.part 1) actor (.task (.setStatus id .inProgress false none comment))
      let events := (withSource ⟨.task (.setStatus id .inProgress false none comment), [], []⟩ built).map
        (authenticated caller)
      pure (events ++ (Reconciliation.planReconciliations db events).map .plan, []) : Building _) relations = _
    have hBuilds : buildEvents config db (env.part 1) actor (.task (.setStatus id .inProgress false none comment))
        relations = (.ok built, relations) := hBuilt
    have hUnsourced : withSource ⟨.task (.setStatus id .inProgress false none comment), [], []⟩ built = built := by
      unfold withSource
      split <;> rfl
    rw [bind_eq, hBuilds]
    dsimp only
    rw [hUnsourced]
    rfl
  refine ⟨_, hDraft, ?_⟩
  obtain ⟨hSame, hNone⟩ | ⟨hOther, rest, hIs, hRest⟩ := hCases
  · refine .inl ⟨hSame, ?_⟩
    dsimp only [events]
    rw [hNone]
    exact congrArg (List.map Event.plan) (Reconciliation.drain_idle _)
  · refine .inr ⟨hOther, rest.map (authenticated caller) ++ (Reconciliation.planReconciliations db events).map .plan, ?_,
      fun event hMem => ?_⟩
    · dsimp only [events]
      rw [hIs]
      rfl
    · rcases mem_append.mp hMem with hMem | hMem
      · obtain ⟨original, hOriginal, rfl⟩ := mem_map.mp hMem
        exact hAuthenticated original (hRest original hOriginal)
      · obtain ⟨closing, hClosing, rfl⟩ := mem_map.mp hMem
        obtain ⟨planId, fromStatus, rfl⟩ := Reconciliation.drain_closes hClosing
        exact rfl

theorem persist_task_refused {command : TaskCommand} {envelopes : List EventEnvelope} {e : CoreError}
    (h : persist db env caller actor (.task command) envelopes = .error e) : e.IsStorage := by
  have hPersist : persist db env caller actor (.task command) envelopes =
      if envelopes.any fun envelope => isTaskLifecycle envelope.payload then
        AgentClaimRepo.recordTaskLifecycle db env actor envelopes
      else appendBatch db envelopes := by
    unfold persist
    cases caller.agentId <;> rfl
  rw [hPersist] at h
  split at h
  · exact appendBatch_refused h
  · exact appendBatch_refused h

section

variable {command : TaskCommand} {batch : List Event}

theorem unowned_task : isCompletedRunRetry db caller (.task command) = false ∧
    ensureRunCompletionOwner db caller (.task command) = .ok () ∧ attributedActor caller (.task command) claimed = claimed := by
  unfold isCompletedRunRetry ensureRunCompletionOwner attributedActor
  cases caller.agentId <;> exact ⟨rfl, rfl, rfl⟩

theorem handle_task
    (hDraft : draft config db (env.part 0) caller claimed (.task command) db.relations = (.ok (batch, []), db.relations))
    (hNonempty : batch ≠ []) : handleWithRunOwner config env caller (.task command) claimed db = (do
      let trail ← gated config (env.part 1) claimed (gateOverrideOf (.task command)) batch
      let persisted ← commit (env.part 3) caller claimed (.task command)
        (withProvenance (.task command) (envelopesOf (env.part 2) claimed (trail.surround batch)))
      Projections.applyEvents (env.part 4) persisted
      let applied ← Stateful.get
      Stateful.set (AutoAppend.autoAppendLogs config (env.part 5) applied persisted)
      pure ⟨persisted, trail.warnings⟩ : Serving DispatchOutcome) db := by
  have hUnowned := @unowned_task db caller claimed command
  rw [handle_of_draft hUnowned.1 hUnowned.2.1 (by rw [hUnowned.2.2]; exact hDraft) hNonempty, hUnowned.2.2]
  rfl

theorem handle_task_empty
    (hDraft : draft config db (env.part 0) caller claimed (.task command) db.relations = (.ok ([], []), db.relations)) :
    (handleWithRunOwner config env caller (.task command) claimed db).1 = .ok ⟨[], []⟩ := by
  have hUnowned := @unowned_task db caller claimed command
  have hBuilding : building (draft config db (env.part 0) caller (attributedActor caller (.task command) claimed)
      (.task command)) db = (.ok ([], []), db) := by
    unfold building
    rw [hUnowned.2.2, hDraft]
  unfold handleWithRunOwner
  rw [bind_eq]
  dsimp only [Stateful.get]
  rw [if_neg (by rw [hUnowned.1]; exact Bool.false_ne_true), bind_eq]
  dsimp only [Stateful.lift]
  rw [hUnowned.2.1]
  dsimp only
  rw [bind_eq, hBuilding]
  rfl

theorem handle_task_refused {e : CoreError} {after : Database}
    (hDraft : draft config db (env.part 0) caller claimed (.task command) db.relations = (.ok (batch, []), db.relations))
    (hNonempty : batch ≠ [])
    (hGated : gated config (env.part 1) claimed (gateOverrideOf (.task command)) batch db = (.error e, after)) :
    handleWithRunOwner config env caller (.task command) claimed db = (.error e, after) := by
  rw [handle_task hDraft hNonempty, bind_eq, hGated]

theorem handle_task_passed {trail : Trail}
    (hDraft : draft config db (env.part 0) caller claimed (.task command) db.relations = (.ok (batch, []), db.relations))
    (hNonempty : batch ≠ [])
    (hGated : gated config (env.part 1) claimed (gateOverrideOf (.task command)) batch db = (.ok trail, db)) :
    (∃ e, (handleWithRunOwner config env caller (.task command) claimed db).1 = .error e ∧ e.IsStorage) ∨
      ∃ answer, (handleWithRunOwner config env caller (.task command) claimed db).1 = .ok answer ∧
        answer.warnings = trail.warnings := by
  rw [handle_task hDraft hNonempty, bind_eq, hGated]
  dsimp only
  unfold commit
  rw [bind_eq, bind_eq]
  dsimp only [Stateful.get]
  rw [bind_eq]
  dsimp only [Stateful.lift]
  cases hStored : persist db (env.part 3) caller claimed (.task command)
      (withProvenance (.task command) (envelopesOf (env.part 2) claimed (trail.surround batch))) with
  | error e => exact .inl ⟨e, rfl, persist_task_refused hStored⟩
  | ok stored =>
    obtain ⟨persisted, appended⟩ := stored
    dsimp only
    rw [bind_eq]
    dsimp only [Stateful.set]
    cases hApplied : Projections.applyEvents (env.part 4) persisted appended with
    | mk outcome applied =>
    cases outcome with
    | error e =>
      refine .inl ⟨e, ?_, Projections.applyEvents_refused hApplied⟩
      change ((Projections.applyEvents (env.part 4) persisted >>= _) appended).1 = _
      rw [bind_eq, hApplied]
    | ok done =>
      refine .inr ⟨⟨persisted, trail.warnings⟩, ?_, rfl⟩
      change ((Projections.applyEvents (env.part 4) persisted >>= _) appended).1 = _
      rw [bind_eq, hApplied]
      rfl

end

end Handler

namespace PlanReadiness

open RuleEngine (checkObserved ruleWarning)

variable {config : Config} {codec : TextCodec} {db : Database} {env : Env} {actor : Actor} {task : Task} {check : GateCheck}
  {found : Evaluation} {now : Timestamp}

def startCheck (task : Task) : GateCheck :=
  LifecycleGate.stageCheck [.task (.taskStatusChanged task.id task.status .inProgress)]
    { GateCheck.new .taskBeforeStart with
      taskId := some task.id, statusFrom := some task.status, statusTo := some .inProgress }

theorem deriveGateChecks_startCheck :
    LifecycleGate.deriveGateChecks [.task (.taskStatusChanged task.id task.status .inProgress)] = [startCheck task] := rfl

def rulesOf (found : Evaluation) : List CanStartRule × List CanStartRule :=
  (found.acting.map fun entry => ⟨entry.rule.ruleKey, warnMessage entry.rule⟩, found.warnings.map warnedRule)

theorem decision_normal (found : Evaluation) :
    (found.acting = [] ∧ found.warnings = [] ∧ decision check ⟨false, none⟩ found = .allowed) ∨
    (found.acting = [] ∧ decision check ⟨false, none⟩ found = .warning found.warnings) ∨
    (found.acting ≠ [] ∧ ∃ unblock, decision check ⟨false, none⟩ found =
      .blocked (blockedMessage found.acting) (found.acting.map fun entry => ruleWarning entry.rule) found.warnings
        unblock) := by
  unfold decision
  by_cases hActing : found.acting = []
  · rw [if_pos (isEmpty_iff.mpr hActing)]
    by_cases hWarnings : found.warnings = []
    · rw [if_pos (isEmpty_iff.mpr hWarnings)]
      exact .inl ⟨hActing, hWarnings, rfl⟩
    · rw [if_neg (mt List.isEmpty_iff.mp hWarnings)]
      exact .inr (.inl ⟨hActing, rfl⟩)
  · rw [if_neg (mt List.isEmpty_iff.mp hActing)]
    exact .inr (.inr ⟨hActing, _, rfl⟩)

theorem readDecision_decision :
    (readDecision ([], []) (decision check ⟨false, none⟩ found)).1 = (rulesOf found).1 ∧
      (found.acting = [] →
        (readDecision ([], []) (decision check ⟨false, none⟩ found)).2 = (rulesOf found).2) := by
  obtain ⟨hActing, hWarnings, hDecision⟩ | ⟨hActing, hDecision⟩ | ⟨hActing, unblock, hDecision⟩ :=
    @decision_normal check found
  · rw [hDecision, rulesOf, hActing, hWarnings]
    exact ⟨rfl, fun _ => rfl⟩
  · rw [hDecision, rulesOf, hActing]
    exact ⟨rfl, fun _ => rfl⟩
  · rw [hDecision]
    refine ⟨?_, fun hNone => absurd hNone hActing⟩
    have hListed : blockedOutcomes (blockedMessage found.acting)
        (found.acting.map fun entry => ruleWarning entry.rule) = found.acting.map fun entry => ruleWarning entry.rule := by
      unfold blockedOutcomes
      rw [if_neg (by simpa using hActing)]
    change [] ++ (blockedOutcomes _ _).map outcomeRule = _
    rw [hListed, nil_append, map_map]
    rfl

/-- The rules that a refusal puts on record. -/
theorem blockedRule_fired (acting : List Acting) :
    ((GateStage.ruleFiredEvents now actor check .blocked none (acting.map fun entry => ruleWarning entry.rule)).map
      Event.audit).filterMap Event.blockedRule =
        acting.map fun entry => ⟨entry.rule.ruleKey, warnMessage entry.rule⟩ := by
  induction acting with
  | nil => rfl
  | cons entry rest ih => exact congrArg (List.cons _) ih

theorem blockedRule_metrics (observations : List RuleObservation) :
    ((observations.map (GateStage.observationMetric codec now check)).map Event.audit).filterMap Event.blockedRule = [] := by
  induction observations with
  | nil => rfl
  | cons observation rest ih => exact ih

variable {e : CoreError}

theorem walkAncestry_not_ruleBlocked {staged : List (PlanId × Option PlanId)} {steps : Nat} {path : List PlanId} {current : PlanId} (h : walkAncestry db staged steps path current = .error e) :
    ¬e.IsRuleBlocked := by
  induction steps generalizing path current with
  | zero => cases h
  | succ steps ih =>
    unfold walkAncestry at h
    split at h
    · cases h
    · rename_i parent _
      by_cases hCycle : parent ∈ path
      · rw [if_pos hCycle] at h
        cases h
        rintro ⟨detail, hIs⟩
        have hFirst := congrArg (fun text : String => text.toList.head?) (CoreError.conflict.inj hIs)
        simp [toString, String.toList_append] at hFirst
      · rw [if_neg hCycle] at h
        exact ih h

theorem chainsOf_not_ruleBlocked {plans : List PlanId}
    (h : chainsOf db check plans = .error e) : ¬e.IsRuleBlocked := by
  induction plans with
  | nil => cases h
  | cons plan rest ih =>
    unfold chainsOf at h
    cases hAncestry : RuleEngine.planAncestry db plan check.pendingPlans with
    | error e' =>
      rw [hAncestry] at h
      cases h
      exact walkAncestry_not_ruleBlocked hAncestry
    | ok ancestry =>
      rw [hAncestry] at h
      dsimp only at h
      cases hRest : chainsOf db check rest with
      | error e' =>
        rw [hRest] at h
        cases h
        exact ih hRest
      | ok chains =>
        rw [hRest] at h
        cases h

theorem checkObserved_cases (db : Database) (check : GateCheck) (override : GateOverride) :
    (∃ e, (∀ env actor, checkObserved db env actor check override = .error e) ∧ ¬e.IsRuleBlocked) ∨
      ∃ found, ∀ env actor, checkObserved db env actor check override =
        .ok (decision (resolveCheck db check) override found, found.observations) := by
  cases hChains : scopeChains db (resolveCheck db check) with
  | error e =>
    refine .inl ⟨e, fun env actor => ?_, ?_⟩
    · unfold RuleEngine.checkObserved
      dsimp only
      rw [hChains]
    · unfold scopeChains at hChains
      dsimp only at hChains
      split at hChains
      · cases hChains
      · exact chainsOf_not_ruleBlocked hChains
  | ok chains =>
    refine .inr ⟨evaluate db (resolveCheck db check) chains, fun env actor => ?_⟩
    unfold RuleEngine.checkObserved
    dsimp only
    rw [hChains]

theorem ruleReadiness_start (hOther : task.status ≠ .inProgress) :
    ruleReadiness db env (some (checkObserved, actor)) task =
      (checkObserved db env actor (startCheck task) ⟨false, none⟩).map fun answer => readDecision ([], []) answer.1 := by
  unfold ruleReadiness
  dsimp only
  rw [if_neg hOther, deriveGateChecks_startCheck, foldlM_cons]
  cases checkObserved db env actor (startCheck task) ⟨false, none⟩ <;> rfl

end PlanReadiness

structure CanStart.Predicts (readiness : CanStart) (db : Database)
    (handled : Except CoreError DispatchOutcome × Database) : Prop where
  blocks : readiness.ruleBlockers ≠ [] ↔ ∃ e, handled.1 = .error e ∧ e.IsRuleBlocked
  names : readiness.ruleBlockers ≠ [] →
    (Server.recordedSince db handled.2).filterMap Event.blockedRule = readiness.ruleBlockers
  warns : ∀ answer, handled.1 = .ok answer → answer.warnings.map PlanReadiness.warnedRule = readiness.ruleWarnings

theorem CanStart.Predicts.of_clear {readiness : CanStart} {db : Database} {handled : Except CoreError DispatchOutcome × Database}
    (hNone : readiness.ruleBlockers = []) (hErrors : ∀ e, handled.1 = .error e → ¬e.IsRuleBlocked)
    (hWarns : ∀ answer, handled.1 = .ok answer → answer.warnings.map PlanReadiness.warnedRule = readiness.ruleWarnings) :
    readiness.Predicts db handled where
  blocks := ⟨fun hSome => absurd hNone hSome, fun ⟨e, hError, hRule⟩ => absurd hRule (hErrors e hError)⟩
  names := fun hSome => absurd hNone hSome
  warns := hWarns

namespace Handler

open PlanReadiness
open RuleEngine (checkObserved)

variable {config : Config} {db : Database} {env readEnv : Env} {caller : Caller} {claimed : Actor} {id : TaskId} {task : Task}
  {comment : Option TransitionComment} {note : Option (String × Option CommentKind)}

def startCommand (id : TaskId) (comment : Option TransitionComment) : Command :=
  .task (.setStatus id .inProgress false none comment)

theorem canStart_ok {rules : List CanStartRule × List CanStartRule} (hTask : db.tasks.find? id = some task)
    (hRules : ruleReadiness db readEnv (some (checkObserved, claimed)) task = .ok rules) :
    ∃ readiness, canStart db readEnv (some (checkObserved, claimed)) id = .ok readiness ∧
      readiness.ruleBlockers = rules.1 ∧ readiness.ruleWarnings = rules.2 := by
  have hFound : requireTask db id = .ok task := by
    unfold requireTask
    rw [hTask]
    rfl
  unfold canStart
  rw [hFound]
  change ∃ readiness, ((ruleReadiness db readEnv (some (checkObserved, claimed)) task) >>= _) = Except.ok readiness ∧ _
  rw [hRules]
  exact ⟨_, rfl, rfl, rfl⟩

theorem canStart_error {e : CoreError} (hTask : db.tasks.find? id = some task)
    (hRules : ruleReadiness db readEnv (some (checkObserved, claimed)) task = .error e) :
    canStart db readEnv (some (checkObserved, claimed)) id = .error e := by
  have hFound : requireTask db id = .ok task := by
    unfold requireTask
    rw [hTask]
    rfl
  unfold canStart
  rw [hFound]
  change ((ruleReadiness db readEnv (some (checkObserved, claimed)) task) >>= _) = _
  rw [hRules]
  rfl

theorem consult_start {found : Evaluation}
    (hDecides : ∀ env actor, checkObserved db env actor (startCheck task) ⟨false, none⟩ =
      .ok (decision (resolveCheck db (startCheck task)) ⟨false, none⟩ found, found.observations)) :
    (found.acting = [] ∧ ∃ trail, trail.warnings = found.warnings ∧
      consult config.text checkObserved db env claimed ⟨false, none⟩ Trail.empty [startCheck task] =
        .ok (.passed trail)) ∨
    (found.acting ≠ [] ∧ ∃ audit error,
      consult config.text checkObserved db env claimed ⟨false, none⟩ Trail.empty [startCheck task] =
        .ok (.refused audit error) ∧
      (audit.map Event.audit).filterMap Event.blockedRule = (rulesOf found).1 ∧ error.IsRuleBlocked) := by
  obtain ⟨hActing, hNoWarning, hDecision⟩ | ⟨hActing, hDecision⟩ | ⟨hActing, unblock, hDecision⟩ :=
    @decision_normal (resolveCheck db (startCheck task)) found
  · refine .inl ⟨hActing, _, ?_, by rw [consult, hDecides, hDecision]; rfl⟩
    exact hNoWarning.symm
  · refine .inl ⟨hActing, _, ?_, by rw [consult, hDecides, hDecision]; rfl⟩
    rfl
  · refine .inr ⟨hActing, _, _, by rw [consult, hDecides, hDecision], ?_, ?_⟩
    · rw [map_append, filterMap_append, blockedRule_fired]
      exact congrArg (· ++ (rulesOf found).1) (blockedRule_metrics found.observations)
    · refine ⟨blockedMessage found.acting ++ (" | unblock: " ++ config.text.renderHints unblock), ?_⟩
      simp [toString, String.append_assoc]

/-- What the dry run says of the start of a task that no pipeline holds, is what the
command meets. Where it fails, the command fails with the same error. -/
theorem can_start_predicts (hMints : MintsNew (env.part 1) db) (hGate : config.lifecycleGate = some checkObserved)
    (hTask : db.tasks.find? id = some task) (hPosition : TaskRepo.pipelinePosition db id = none)
    (hNote : TaskCommands.transitionNote comment = .ok note) :
    (∃ readiness, canStart db readEnv (some (checkObserved, claimed)) id = .ok readiness ∧
      readiness.Predicts db (handleWithRunOwner config env caller (startCommand id comment) claimed db)) ∨
    ∃ e, canStart db readEnv (some (checkObserved, claimed)) id = .error e ∧
      (handleWithRunOwner config env caller (startCommand id comment) claimed db).1 = .error e ∧ ¬e.IsRuleBlocked := by
  obtain ⟨batch, hDraft, ⟨hSame, rfl⟩ | ⟨hOther, rest, rfl, hRest⟩⟩ :=
    @draft_start config db (env.part 0) caller claimed _ _ _ _ hTask hPosition hNote db.relations
  · -- nothing changes, and no gate is asked
    have hRules : ruleReadiness db readEnv (some (checkObserved, claimed)) task = .ok ([], []) := if_pos hSame
    obtain ⟨readiness, hReads, hBlockers, hWarnings⟩ := canStart_ok hTask hRules
    have hHandled := handle_task_empty hDraft
    refine .inl ⟨readiness, hReads, .of_clear hBlockers ?_ ?_⟩
    · intro e hError
      cases hHandled.symm.trans hError
    · intro answer hAnswer
      cases hHandled.symm.trans hAnswer
      exact hWarnings.symm
  · have hChecks : LifecycleGate.deriveGateChecks
        (.task (.taskStatusChanged task.id task.status .inProgress) :: rest) = [startCheck task] :=
      LifecycleGate.deriveGateChecks_start hRest
    have hNonempty : Event.task (.taskStatusChanged task.id task.status .inProgress) :: rest ≠ [] := cons_ne_nil _ _
    have hConsulted : ∀ verdict, GateStage.consult config.text checkObserved db (env.part 1) claimed ⟨false, none⟩
        GateStage.Trail.empty [startCheck task] = verdict →
        GateStage.consult config.text checkObserved db (env.part 1) claimed (gateOverrideOf (startCommand id comment))
          GateStage.Trail.empty (LifecycleGate.deriveGateChecks
            (.task (.taskStatusChanged task.id task.status .inProgress) :: rest)) = verdict := by
      intro verdict hVerdict
      rw [hChecks]
      exact hVerdict
    obtain ⟨e, hFails, hNotRule⟩ | ⟨found, hDecides⟩ := checkObserved_cases db (startCheck task) ⟨false, none⟩
    · -- the engine fails on both ways alike
      have hRules : ruleReadiness db readEnv (some (checkObserved, claimed)) task = .error e := by
        rw [ruleReadiness_start hOther, hFails]
        rfl
      have hConsult := hConsulted (.error e) (by rw [GateStage.consult, hFails])
      have hHandled := handle_task_refused hDraft hNonempty (gated_error hGate hConsult)
      exact .inr ⟨e, canStart_error hTask hRules, congrArg Prod.fst hHandled, hNotRule⟩
    · have hRules : ruleReadiness db readEnv (some (checkObserved, claimed)) task = .ok (readDecision ([], [])
          (RuleEngine.decision (RuleEngine.resolveCheck db (startCheck task)) ⟨false, none⟩ found)) := by
        rw [ruleReadiness_start hOther, hDecides]
        rfl
      obtain ⟨readiness, hReads, hBlockers, hWarnings⟩ := canStart_ok hTask hRules
      have hRead := @readDecision_decision (RuleEngine.resolveCheck db (startCheck task)) found
      rw [hRead.1] at hBlockers
      refine .inl ⟨readiness, hReads, ?_⟩
      obtain ⟨hActing, trail, hTrail, hConsult⟩ | ⟨hActing, audit, error, hConsult, hAudit, hError⟩ :=
        @consult_start config db (env.part 1) claimed task found hDecides
      · have hNone : readiness.ruleBlockers = [] := by
          rw [hBlockers, rulesOf, hActing]
          rfl
        have hHandled := handle_task_passed hDraft hNonempty (gated_passed hGate (hConsulted _ hConsult))
        refine .of_clear hNone (fun e hError hRule => ?_) fun answer hAnswer => ?_
        · obtain ⟨e', hStorage, hIs⟩ | ⟨answer, hAnswer, _⟩ := hHandled
          · cases hStorage.symm.trans hError
            exact absurd hRule hIs.not_ruleBlocked
          · cases hAnswer.symm.trans hError
        · obtain ⟨e', hStorage, _⟩ | ⟨answer', hAnswer', hIs⟩ := hHandled
          · cases hStorage.symm.trans hAnswer
          · cases hAnswer'.symm.trans hAnswer
            rw [hIs, hTrail, hWarnings, hRead.2 hActing]
            rfl
      · -- the refusal is put on record
        obtain ⟨recorded, hRecord, hSince⟩ := @recordRefusal_new db (env.part 1) claimed audit hMints
        have hHandled := handle_task_refused hDraft hNonempty (gated_refused hGate (hConsulted _ hConsult) hRecord)
        change readiness.Predicts db (handleWithRunOwner config env caller (.task _) claimed db)
        rw [hHandled]
        refine ⟨⟨fun _ => ⟨error, rfl, hError⟩, fun _ => ?_⟩, fun _ => ?_, fun answer hAnswer => by cases hAnswer⟩
        · rw [hBlockers]
          exact mt map_eq_nil_iff.mp hActing
        · rw [hSince, hAudit, hBlockers]

private def ruledStart : Database := Server.run Server.engineConfig ruledRun

private def readinessOf (db : Database) (id : TaskId) : Except CoreError CanStart :=
  canStart db (Server.nthEnv 3) (some (checkObserved, .anyUser)) id

theorem can_start_predicts_ruled :
    ((readinessOf ruledStart ⟨7⟩).toOption.any fun readiness => !readiness.ruleBlockers.isEmpty) = true ∧
      ((∃ readiness, readinessOf ruledStart ⟨7⟩ = .ok readiness ∧ readiness.Predicts ruledStart
        (handleWithRunOwner Server.engineConfig (Server.nthEnv 3) .internal (startCommand ⟨7⟩ none) .anyUser ruledStart)) ∨
      ∃ e, readinessOf ruledStart ⟨7⟩ = .error e ∧
        (handleWithRunOwner Server.engineConfig (Server.nthEnv 3) .internal (startCommand ⟨7⟩ none) .anyUser
          ruledStart).1 = .error e ∧ ¬e.IsRuleBlocked) := by
  have hTask : (ruledStart.tasks.find? ⟨7⟩).isSome = true := by decide +kernel
  obtain ⟨task, hFound⟩ := Option.isSome_iff_exists.mp hTask
  exact ⟨by decide +kernel, can_start_predicts (mintsNew_of_calls (by decide +kernel)) rfl hFound (by decide +kernel) rfl⟩

private def stagedStart : Database := Server.run Server.engineConfig (Server.commands [
  .rule (.createRule ⟨none, "required", "", .tenant, .taskBeforeStart, none, .ownerRequired, .required, "", false, true⟩),
  .task (.createTask { NewTask.new "task" with id := some ⟨7⟩ }),
  .task (.advancePipeline ⟨7⟩ ⟨0, "reviewer", false, 1, true, []⟩)])

private def stagedAnswer : Except CoreError DispatchOutcome × Database :=
  handleWithRunOwner Server.engineConfig (Server.nthEnv 3) .internal (startCommand ⟨7⟩ none) .anyUser stagedStart

private def firstByteOfConflict : Except CoreError DispatchOutcome → Option UInt8
  | .error (.conflict message) => message.toByteArray.data.toList.head?
  | _ => none

private theorem not_ruleBlocked_of_first {outcome : Except CoreError DispatchOutcome} (h : firstByteOfConflict outcome = some (Char.toUInt8 'p'))
    {e : CoreError} (hError : outcome = .error e) : ¬e.IsRuleBlocked := by
  rintro ⟨detail, rfl⟩
  rw [hError] at h
  have hRule : "rule_blocked: ".toByteArray.data.toList.head? = some (Char.toUInt8 'r') := by decide
  rw [firstByteOfConflict, String.toByteArray_append, ByteArray.data_append, Array.toList_append, head?_append, hRule] at h
  cases h

/-- The dry run names the rule, and the command is refused before it comes to the
gate. -/
theorem can_start_blind_to_pipeline : ∃ task readiness, stagedStart.tasks.find? ⟨7⟩ = some task ∧
    task.status.isTerminal = false ∧ readinessOf stagedStart ⟨7⟩ = .ok readiness ∧
    ¬readiness.Predicts stagedStart stagedAnswer := by
  have hTask : ((stagedStart.tasks.find? ⟨7⟩).map fun task => task.status.isTerminal) = some false := by decide +kernel
  have hReadiness : ((readinessOf stagedStart ⟨7⟩).toOption.map fun readiness => readiness.ruleBlockers.isEmpty) =
      some false := by decide +kernel
  have hAnswer : firstByteOfConflict stagedAnswer.1 = some (Char.toUInt8 'p') := by decide +kernel
  obtain ⟨task, hFound, hOpen⟩ := Option.map_eq_some_iff.mp hTask
  obtain ⟨readiness, hReads, hBlocked⟩ := Option.map_eq_some_iff.mp hReadiness
  have hOk : readinessOf stagedStart ⟨7⟩ = .ok readiness := by
    cases hIs : readinessOf stagedStart ⟨7⟩ with
    | error e =>
      rw [hIs] at hReads
      cases hReads
    | ok other =>
      rw [hIs] at hReads
      cases hReads
      rfl
  refine ⟨task, readiness, hFound, hOpen, hOk, fun hPredicts => ?_⟩
  have hSome : readiness.ruleBlockers ≠ [] := by
    intro hNone
    rw [hNone] at hBlocked
    cases hBlocked
  obtain ⟨e, hError, hRule⟩ := hPredicts.blocks.mp hSome
  exact not_ruleBlocked_of_first hAnswer hError hRule

end Handler
end Daruma
