import Daruma.Core.WarrantedBatches

/-! Which checks of the gate see the rules of the project that their entity
belongs to. -/
namespace Daruma

open Outcome List

def planProject (db : Database) (id : PlanId) : Option ProjectId := (db.plans.find? id).map Plan.projectId

/-- The project of the entity that the check of an event is about: its own, that
of the stored row, or that of the plan of a run. -/
def Event.checkedProject (db : Database) : Event → Option ProjectId
  | .project (.projectCreated created) => some created.id
  | .plan (.planCreated created) => some created.projectId
  | .plan (.planStatusChanged id ..) => planProject db id
  | .task (.taskCreated created) => created.projectId
  | .task (.taskStatusChanged id ..) => (db.tasks.find? id).bind Task.projectId
  | .run (.runStarted started) => planProject db started.planId
  | .run (.runCompleted id _) => (db.runs.find? id).bind fun completed => planProject db completed.planId
  | .document (.documentCreated created) => some created.projectId
  | _ => none

/-- The checks that name no project: the approval of a plan, the start and the
completion of a run. -/
def Event.namesNoProject : Event → Bool
  | .plan (.planStatusChanged ..) | .run (.runStarted _) | .run (.runCompleted ..) => true
  | _ => false

namespace RuleEngine

variable {db : Database} {check : GateCheck} {chains : List (List RuleScope)} {chain : List RuleScope}
  {project : ProjectId}

theorem chainsOf_eq_ok {plans : List PlanId} (h : chainsOf db check plans = .ok chains) (hMem : chain ∈ chains) :
    ∃ ancestry, chain = scopeChain check ancestry := by
  induction plans generalizing chains with
  | nil =>
    cases h
    exact absurd hMem not_mem_nil
  | cons plan rest ih =>
    unfold chainsOf at h
    split at h
    · cases h
    · split at h
      · cases h
      · rename_i ancestry _ _ later hLater
        cases h
        rcases mem_cons.mp hMem with rfl | hMem
        · exact ⟨ancestry, rfl⟩
        · exact ih hLater hMem

theorem mem_scopeChains (h : scopeChains db check = .ok chains) (hMem : chain ∈ chains) :
    ∃ ancestry, chain = scopeChain check ancestry := by
  unfold scopeChains at h
  dsimp only at h
  split at h
  · cases h
    exact ⟨[], mem_singleton.mp hMem⟩
  · exact chainsOf_eq_ok h hMem

theorem project_mem_scopeChain {ancestry : List PlanId} :
    .project project ∈ scopeChain check ancestry ↔ check.projectId = some project := by
  simp [scopeChain]

theorem resolveCheck_project {id : TaskId} (hTask : check.taskId = some id) (hNone : check.projectId = none)
    (hProject : (db.tasks.find? id).bind Task.projectId = some project) :
    (resolveCheck db check).projectId = some project := by
  obtain ⟨task, hFound, hIs⟩ := Option.bind_eq_some_iff.mp hProject
  simp [resolveCheck, hTask, hNone, RuleRepo.taskContext, hFound, hIs]

theorem resolveCheck_keeps (h : check.projectId = some project) :
    (resolveCheck db check).projectId = some project := by
  unfold resolveCheck
  split
  · split
    · split
      · rw [h]
        rfl
      · exact h
    · exact h
  · exact h

theorem resolveCheck_of_no_task (h : check.taskId = none) : resolveCheck db check = check := by
  simp [resolveCheck, h]

variable {derived : GateCheck} {event : Event}

theorem checked_project {batch : List Event}
    (hDerived : LifecycleGate.deriveCheck event = some derived) (hProject : event.checkedProject db = some project) :
    (resolveCheck db (LifecycleGate.stageCheck batch derived)).projectId = some project ↔
      event.namesNoProject = false := by
  have hUnnamed : derived.taskId = none → derived.projectId = none →
      (resolveCheck db (LifecycleGate.stageCheck batch derived)).projectId ≠ some project := by
    intro hTask hNone hIs
    have hSame : resolveCheck db (LifecycleGate.stageCheck batch derived) = LifecycleGate.stageCheck batch derived :=
      resolveCheck_of_no_task hTask
    rw [hSame] at hIs
    cases hNone.symm.trans hIs
  cases event with
  | project event =>
    cases event with
    | projectCreated created =>
      cases hDerived
      exact ⟨fun _ => rfl, fun _ => resolveCheck_keeps hProject⟩
    | _ => cases hDerived
  | plan event =>
    cases event with
    | planCreated created =>
      cases hDerived
      exact ⟨fun _ => rfl, fun _ => resolveCheck_keeps hProject⟩
    | planStatusChanged =>
      obtain ⟨_, hIs⟩ := Option.ite_none_right_eq_some.mp hDerived
      cases hIs
      exact ⟨fun hIs => absurd hIs (hUnnamed rfl rfl), fun hFalse => by cases hFalse⟩
    | _ => cases hDerived
  | task event =>
    cases event with
    | taskCreated created =>
      cases hDerived
      exact ⟨fun _ => rfl, fun _ => resolveCheck_keeps hProject⟩
    | taskStatusChanged id =>
      obtain ⟨_, hIs⟩ := Option.ite_none_right_eq_some.mp hDerived
      cases hIs
      exact ⟨fun _ => rfl, fun _ => resolveCheck_project rfl rfl hProject⟩
    | _ => cases hDerived
  | run event =>
    cases event with
    | runStarted | runCompleted =>
      cases hDerived
      exact ⟨fun hIs => absurd hIs (hUnnamed rfl rfl), fun hFalse => by cases hFalse⟩
    | _ => cases hDerived
  | document event =>
    cases event with
    | documentCreated created =>
      cases hDerived
      exact ⟨fun _ => rfl, fun _ => resolveCheck_keeps hProject⟩
    | _ => cases hDerived
  | _ => cases hProject

end RuleEngine

namespace RuleRepo

/-- A choice for the key has been made. -/
def Decides (chosen : List (Nat × Rule)) (key : String) : Prop := ∃ entry ∈ chosen, entry.2.ruleKey = key

variable {chosen : List (Nat × Rule)} {key : String} {rule : Rule} {depth : Nat}

theorem chooseRule_decides (h : Decides chosen key ∨ rule.ruleKey = key) :
    Decides (chooseRule depth chosen rule) key := by
  unfold chooseRule
  split
  · rename_i chosenDepth incumbent hFound
    have hIncumbent : decide (incumbent.ruleKey = rule.ruleKey) = true :=
      find?_some (p := fun entry : Nat × Rule => decide (entry.2.ruleKey = rule.ruleKey)) hFound
    have hIncumbent := of_decide_eq_true hIncumbent
    have hOld : Decides chosen key := h.elim id fun hKey =>
      ⟨_, mem_of_find?_eq_some hFound, hIncumbent.trans hKey⟩
    split
    · exact hOld
    · split
      · exact hOld
      · obtain ⟨entry, hMem, hKey⟩ := hOld
        refine ⟨_, mem_map.mpr ⟨entry, hMem, rfl⟩, ?_⟩
        split
        · rename_i hSame
          exact hSame.symm.trans hKey
        · exact hKey
  · rcases h with ⟨entry, hMem, hKey⟩ | hKey
    · exact ⟨entry, mem_append_left _ hMem, hKey⟩
    · exact ⟨_, mem_append_right _ (mem_singleton.mpr rfl), hKey⟩

theorem foldl_chooseRule_decides {rules : List Rule} (h : Decides chosen key ∨ ∃ rule ∈ rules, rule.ruleKey = key) :
    Decides (rules.foldl (chooseRule depth) chosen) key := by
  induction rules generalizing chosen with
  | nil => exact h.resolve_right fun ⟨_, hMem, _⟩ => not_mem_nil hMem
  | cons rule rest ih =>
    refine ih ?_
    rcases h with h | ⟨other, hMem, hKey⟩
    · exact .inl (chooseRule_decides (.inl h))
    · rcases mem_cons.mp hMem with rfl | hMem
      · exact .inl (chooseRule_decides (.inr hKey))
      · exact .inr ⟨other, hMem, hKey⟩

theorem chosenRules_decides {rules : Rules} {trigger : RuleTrigger} {chain : List RuleScope}
    (h : Decides chosen key ∨ ∃ scope ∈ chain, ∃ rule ∈ enabledRules rules scope trigger, rule.ruleKey = key) :
    Decides (chosenRules rules trigger depth chosen chain) key := by
  induction chain generalizing depth chosen with
  | nil => exact h.resolve_right fun ⟨_, hMem, _⟩ => not_mem_nil hMem
  | cons scope inner ih =>
    refine ih ?_
    rcases h with h | ⟨other, hMem, hRule⟩
    · exact .inl (foldl_chooseRule_decides (.inl h))
    · rcases mem_cons.mp hMem with rfl | hMem
      · exact .inl (foldl_chooseRule_decides (.inr hRule))
      · exact .inr ⟨other, hMem, hRule⟩

end RuleRepo

structure Rule.GuardsProject (rule : Rule) (trigger : RuleTrigger) (project : ProjectId) : Prop where
  scope : rule.scope = .project project
  trigger : rule.trigger = trigger
  enabled : rule.enabled = true

/-- The command brings about the approval of a plan, or the start or the completion
of a run, of a plan that is stored. -/
def Command.AsksWithoutProject (codec : TextCodec) (db : Database) : Command → Prop
  | .plan (.setPlanStatus id .active ..) => ∃ plan, db.plans.find? id = some plan ∧ plan.status = .draft
  | .run (.startRun planId ..) =>
    ∃ plan, db.plans.find? planId = some plan ∧ plan.status = .active ∧ plan.archivedAt = none
  | .run (.completeRun id) => ∃ run, db.runs.find? id = some run ∧ run.status = .active ∧
      (db.plans.find? run.planId).isSome = true ∧ RunCommands.ensureRunPostconditions codec db id = .ok ()
  | _ => False

namespace Handler

open LifecycleGate (deriveCheck stageCheck)
open RuleEngine (scopeChains resolveCheck)

variable {config : Config} {db : Database} {env : Env} {caller : Caller} {actor : Actor} {command : Command}

def ScopesComplete (db : Database) (batch : List Event) : Prop :=
  ∀ event ∈ batch, ∀ derived, deriveCheck event = some derived →
    ∀ project, event.checkedProject db = some project →
      ∀ chains, scopeChains db (resolveCheck db (stageCheck batch derived)) = .ok chains → ∀ chain ∈ chains,
        .project project ∈ chain ∧ ∀ rule ∈ db.rules.rows, rule.GuardsProject derived.trigger project →
          RuleRepo.Decides (RuleRepo.chosenRules db.rules derived.trigger 0 [] chain) rule.ruleKey

variable {batch : List Event} {warnings : List MutationWarning} {relations : Relations}

theorem scopesComplete_of_named (h : ∀ event ∈ batch, ∀ derived project, deriveCheck event = some derived →
      event.checkedProject db = some project → event.namesNoProject = false) : ScopesComplete db batch := by
  intro event hEvent derived hDerived project hProject chains hChains chain hChain
  obtain ⟨ancestry, rfl⟩ := RuleEngine.mem_scopeChains hChains hChain
  have hNamed : (resolveCheck db (stageCheck batch derived)).projectId = some project :=
    (RuleEngine.checked_project hDerived hProject).mpr (h event hEvent derived project hDerived hProject)
  have hIn : .project project ∈ RuleEngine.scopeChain (resolveCheck db (stageCheck batch derived)) ancestry :=
    RuleEngine.project_mem_scopeChain.mpr hNamed
  refine ⟨hIn, fun rule hRule hGuards => RuleRepo.chosenRules_decides (.inr ⟨_, hIn, rule, ?_, rfl⟩)⟩
  simp [RuleRepo.enabledRules, hRule, hGuards.scope, hGuards.trigger, hGuards.enabled]

theorem draft_runCommand {command : RunCommand} (h : draft config db (env.part 0) caller actor (.run command) db.relations =
      (.ok (batch, warnings), relations)) :
    ∃ built, RunCommands.buildEvents config db (builderEnv env) actor command = .ok built := by
  obtain ⟨built, hBuilt, _⟩ := draft_ok (fun plan hIs => by cases hIs) h
  obtain ⟨hBuilt, _⟩ := Stateful.lift_eq.mp hBuilt
  obtain ⟨events, hEvents, _⟩ := map_eq_ok.mp hBuilt
  exact ⟨events, hEvents⟩

theorem draft_namesProject (hAsks : ¬command.AsksWithoutProject config.text db)
    (h : draft config db (env.part 0) caller actor command db.relations = (.ok (batch, warnings), relations)) (hMem : event ∈ batch) {project : ProjectId}
    (hDerived : deriveCheck event = some derived) (hProject : event.checkedProject db = some project) :
    event.namesNoProject = false := by
  have hDrafted : event.isSource = true ∨ Warranted db ((env.part 0).part 1) command event :=
    draft_warranted _ _ _ h event hMem
  have hWarranted : event.isSource = false → Warranted db ((env.part 0).part 1) command event := fun hOther =>
    hDrafted.resolve_left (Bool.eq_false_iff.mp hOther)
  cases event with
  | plan event =>
    cases event with
    | planStatusChanged id fromStatus toStatus =>
      obtain ⟨⟨rfl, rfl⟩, _⟩ := Option.ite_none_right_eq_some.mp hDerived
      rcases hWarranted rfl with hDone | ⟨hPlan, ⟨hBack, _⟩ | ⟨force, reason, rfl⟩⟩
      · cases hDone
      · cases hBack
      · exact absurd hPlan hAsks
    | _ => rfl
  | run event =>
    cases event with
    | runStarted run =>
      obtain ⟨_, _, planId, agentId, parentRunId, rfl⟩ := hWarranted rfl
      obtain ⟨built, hBuilt⟩ := draft_runCommand h
      obtain ⟨plan, hPlan, hBuilt⟩ := bind_eq_ok.mp hBuilt
      obtain ⟨_, hOpen, _⟩ := bind_eq_ok.mp hBuilt
      have hOpen := ensure_eq_ok.mp hOpen
      rw [Bool.and_eq_true, decide_eq_true_eq, Option.isNone_iff_eq_none] at hOpen
      exact absurd ⟨plan, okOr_eq_ok.mp hPlan, hOpen⟩ hAsks
    | runCompleted id =>
      obtain ⟨rfl, ⟨run, hRun, hActive⟩, _⟩ := hWarranted rfl
      obtain ⟨built, hBuilt⟩ := draft_runCommand h
      obtain ⟨_, _, hBuilt⟩ := bind_eq_ok.mp hBuilt
      obtain ⟨_, _, hBuilt⟩ := bind_eq_ok.mp hBuilt
      obtain ⟨_, hSteps, _⟩ := bind_eq_ok.mp hBuilt
      have hPlan : (db.plans.find? run.planId).isSome = true := by
        obtain ⟨found, hFound, hPlan⟩ := Option.bind_eq_some_iff.mp hProject
        obtain rfl := Option.some.inj (hRun.symm.trans hFound)
        obtain ⟨plan, hPlan, _⟩ := Option.map_eq_some_iff.mp hPlan
        rw [hPlan]
        rfl
      exact absurd ⟨run, hRun, hActive, hPlan, hSteps⟩ hAsks
    | _ => rfl
  | _ => rfl

def missesProject (db : Database) (batch : List Event) : Bool :=
  batch.any fun event => (deriveCheck event).any fun derived => (event.checkedProject db).any fun project =>
    match scopeChains db (resolveCheck db (stageCheck batch derived)) with
    | .ok chains => chains.any fun chain => decide (.project project ∉ chain)
    | .error _ => false

theorem ScopesComplete.misses_none (h : ScopesComplete db batch) : missesProject db batch = false := by
  rw [missesProject, any_eq_false]
  intro event hEvent hMisses
  obtain ⟨derived, hDerived, hMisses⟩ := (Option.any_eq_true _ _).mp hMisses
  obtain ⟨project, hProject, hMisses⟩ := (Option.any_eq_true _ _).mp hMisses
  split at hMisses
  · rename_i chains hChains
    obtain ⟨chain, hChain, hLacks⟩ := any_eq_true.mp hMisses
    exact of_decide_eq_true hLacks (h event hEvent derived hDerived project hProject chains hChains chain hChain).1
  · cases hMisses

end Handler

namespace Server

open Handler (ScopesComplete draft attributedActor missesProject)

def CompletesScopes (config : Config) (db : Database) : Call → Prop
  | .command env caller command claimed => ∀ batch warnings relations,
      draft config db (env.part 0) caller (attributedActor caller command claimed) command db.relations =
        (.ok (batch, warnings), relations) → ScopesComplete db batch
  | _ => True

/-- A chain of some check of the drafted batch leaves its project out. -/
def callMisses (config : Config) (db : Database) : Call → Bool
  | .command env caller command claimed =>
    match (draft config db (env.part 0) caller (attributedActor caller command claimed) command db.relations).1 with
    | .ok (batch, _) => missesProject db batch
    | .error _ => false
  | _ => false

theorem CompletesScopes.misses_none {config : Config} {db : Database} {call : Call}
    (h : CompletesScopes config db call) : callMisses config db call = false := by
  cases call with
  | command env caller command claimed =>
    unfold callMisses
    dsimp only
    split
    · rename_i batch warnings hDraft
      exact (h batch warnings _ (Prod.ext hDraft rfl)).misses_none
    · rfl
  | _ => rfl

/-- The command asks for no approval, start or completion that is checked without
its project. -/
def NamesProject (config : Config) (db : Database) : Call → Prop
  | .command _ _ command _ => ¬command.AsksWithoutProject config.text db
  | _ => True

variable {config : Config}

/-- In a run without an approval of a plan and without the start or the completion
of a run, every check of every batch sees the rules of its project. -/
theorem scopes_complete_run {calls : List Call} (hMeets : Meets config (NamesProject config) Database.empty calls) :
    Meets config (CompletesScopes config) Database.empty calls := by
  refine Meets.imp (fun db call hNames => ?_) hMeets
  cases call with
  | command env caller command claimed =>
    intro batch warnings relations hDraft
    exact Handler.scopesComplete_of_named fun event hMem derived project hDerived hProject =>
      Handler.draft_namesProject hNames hDraft hMem hDerived hProject
  | _ => exact trivial

private def firstProject : ProjectId := (Handler.builderEnv (nthEnv 0)).fresh 0

/-- A required rule on the project, which nothing has satisfied. -/
private def projectRule : NewRule :=
  ⟨none, "owner", "", .project firstProject, .planBeforeApprove, none, .ownerRequired, .required, "", false, true⟩

def ruledProjectRun : List Call := commands [
  .project (.createProject "project" none),
  .rule (.createRule projectRule),
  .plan (.createPlan (NewPlan.new "plan" firstProject .anyUser) none)]

theorem scopes_complete_ruledProjectRun :
    Meets engineConfig (CompletesScopes engineConfig) Database.empty ruledProjectRun :=
  scopes_complete_run ⟨id, id, id, trivial⟩

def planApproval : Call := .command (nthEnv 3) .internal
  (.plan (.setPlanStatus ((Handler.builderEnv (nthEnv 2)).fresh 0) .active false none)) .anyUser

/-- The rule of the project does not hold the approval back. -/
theorem project_rule_bypassed : ¬CompletesScopes engineConfig (run engineConfig ruledProjectRun) planApproval ∧
    ((serve engineConfig (run engineConfig ruledProjectRun) planApproval).plans.rows.any fun plan =>
      plan.status = .active) = true := by
  refine ⟨fun hComplete => ?_, by decide +kernel⟩
  have hMisses : callMisses engineConfig (run engineConfig ruledProjectRun) planApproval = true := by decide +kernel
  exact Bool.false_ne_true (hComplete.misses_none.symm.trans hMisses)

end Server
end Daruma
