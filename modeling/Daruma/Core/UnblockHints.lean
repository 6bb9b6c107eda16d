import Daruma.Core.RuleAudit
import Daruma.Storage.EvidenceWindow

/-! What the hints of a refusal are worth: the evidence that a hint asks for, recorded at
the scope that it names, satisfies the rule when the command is given again. -/
namespace Daruma

open EvidenceRepo List
open EvidenceDemand (newer check_iff rule check matchesTarget candidate rule_ok check_error)

def RuleScope.Stored (db : Database) : RuleScope → Prop
  | .tenant => True
  | .project id => (db.projects.find? id).isSome = true
  | .plan id => (db.plans.find? id).isSome = true
  | .task id => (db.tasks.find? id).isSome = true

namespace RuleEngine

variable {db : Database} {trigger : RuleTrigger} {staged : List (PlanId × Option PlanId)}
  {chain kept created created' : List RuleScope} {reach : EvidenceReach} {rule : Rule} {acting : Acting} {scope : RuleScope}
  {evidence : Evidence}

def createsInnermost (trigger : RuleTrigger) : Bool :=
  trigger = .projectCreated || trigger = .planCreated || trigger = .taskCreated

def isStaged (staged : List (PlanId × Option PlanId)) : RuleScope → Bool
  | .plan id => staged.any fun entry => entry.1 = id
  | _ => false

/-- The part of a chain that a command creates: nothing, a plan that it stages with what
is inside it, or the innermost scope. -/
inductive Creates (trigger : RuleTrigger) (staged : List (PlanId × Option PlanId)) : List RuleScope → Prop where
  | nothing (hNot : createsInnermost trigger = false) : Creates trigger staged []
  | staged (scope : RuleScope) (inner : List RuleScope) (hStaged : isStaged staged scope = true) :
      Creates trigger staged (scope :: inner)
  | innermost (scope : RuleScope) (hCreates : createsInnermost trigger = true) : Creates trigger staged [scope]

structure Stands (db : Database) (trigger : RuleTrigger) (staged : List (PlanId × Option PlanId))
    (chain kept created : List RuleScope) : Prop where
  split : chain = kept ++ created
  root : kept ≠ []
  stored : ∀ scope ∈ kept, scope.Stored db
  unstaged : ∀ scope ∈ kept, isStaged staged scope = false
  creates : Creates trigger staged created
  absent : ∀ scope ∈ created, ¬scope.Stored db

/-- What the command creates when it is given again: the same with other ids. -/
structure Anew (db : Database) (created created' : List RuleScope) : Prop where
  ranks : created'.map scopeRank = created.map scopeRank
  absent : ∀ scope ∈ created', ¬scope.Stored db

def startOf (reach : EvidenceReach) (chain : List RuleScope) : Nat :=
  if reach = .selfOnly then chain.length - 1
  else (chain.findIdx? fun scope => reachCeiling reach ≤ scopeRank scope).getD (chain.length - 1)

theorem drop_capped (ceiling : Nat) : (match chain.findIdx? fun scope => ceiling ≤ scopeRank scope with
      | some cut => chain.drop cut
      | none => chain.drop (chain.length - 1)) =
    chain.drop ((chain.findIdx? fun scope => ceiling ≤ scopeRank scope).getD (chain.length - 1)) := by
  cases chain.findIdx? fun scope => decide (ceiling ≤ scopeRank scope) <;> rfl

theorem reachable_eq_drop : reachable chain reach = chain.drop (startOf reach chain) := by
  cases reach with
  | selfOnly => rfl
  | tenant | project | plan => exact drop_capped _

theorem startOf_ranks {chain' : List RuleScope} (h : chain'.map scopeRank = chain.map scopeRank) :
    startOf reach chain' = startOf reach chain := by
  have hLength : chain'.length = chain.length := by simpa using congrArg List.length h
  have hFind : ∀ list : List RuleScope, (list.findIdx? fun scope => decide (reachCeiling reach ≤ scopeRank scope)) =
      (list.map scopeRank).findIdx? fun rank => decide (reachCeiling reach ≤ rank) := by
    intro list
    rw [findIdx?_map]
    rfl
  unfold startOf
  rw [hLength, hFind, hFind, h]

variable (h : Stands db trigger staged chain kept created)

include h in
theorem Stands.finish : min (if createsInnermost trigger then chain.length - 1 else chain.length)
      ((chain.findIdx? (isStaged staged)).getD chain.length) = kept.length := by
  have hKept : kept.findIdx? (isStaged staged) = none := findIdx?_eq_none_iff.mpr h.unstaged
  rw [h.split, findIdx?_append, hKept, Option.none_or, length_append]
  cases h.creates with
  | nothing hNot =>
    rw [hNot]
    simp
  | staged scope inner hStaged =>
    rw [findIdx?_cons, hStaged]
    simp only [if_true, Option.map_some, Option.getD_some, length_cons]
    split <;> omega
  | innermost scope hCreates =>
    rw [hCreates, findIdx?_cons]
    cases isStaged staged scope <;> simp

include h in
theorem Stands.advised (reach : EvidenceReach) :
    advisedScope reach chain trigger staged = (kept.drop (startOf reach chain)).getLast? := by
  have hAdvised : advisedScope reach chain trigger staged =
      ((chain.take (min (if createsInnermost trigger then chain.length - 1 else chain.length)
        ((chain.findIdx? (isStaged staged)).getD chain.length))).drop (startOf reach chain)).getLast? := by
    unfold advisedScope
    have hStaged : (fun scope : RuleScope => match scope with
        | .plan id => staged.any fun entry => decide (entry.1 = id)
        | _ => false) = isStaged staged := by
      funext scope
      cases scope <;> rfl
    dsimp only
    rw [← hStaged]
    rfl
  rw [hAdvised, h.finish, h.split, take_left]

include h in
theorem Stands.again (hAnew : Anew db created created') : startOf reach (kept ++ created') = startOf reach chain := by
  refine startOf_ranks ?_
  rw [h.split, map_append, map_append, hAnew.ranks]

include h in
theorem Stands.advised_reach (hAnew : Anew db created created')
    (hAdvised : advisedScope reach chain trigger staged = some scope) : InReach (kept ++ created') reach scope := by
  rw [h.advised] at hAdvised
  have hMem := mem_of_getLast? hAdvised
  refine mem_reachable.mp ?_
  rw [reachable_eq_drop, h.again hAnew, drop_append]
  exact mem_append_left _ hMem

include h in
theorem Stands.unadvised_reach (hAnew : Anew db created created')
    (hAdvised : advisedScope reach chain trigger staged = none) (hReach : InReach (kept ++ created') reach scope) :
    ¬scope.Stored db := by
  rw [h.advised] at hAdvised
  have hNone : kept.drop (startOf reach chain) = [] := getLast?_eq_none_iff.mp hAdvised
  have hMem := mem_reachable.mpr hReach
  rw [reachable_eq_drop, h.again hAnew, drop_append, hNone, nil_append] at hMem
  exact hAnew.absent scope (mem_of_mem_drop hMem)

/-- The requirement is of evidence that is found along the chain. -/
def isPlain : Requirement → Bool
  | .independentTestVerification .. | .documentLinked | .wipLimit _ => false
  | _ => true

def demandOf (rule : Rule) (chain : List RuleScope) : EvidenceDemand where
  chain := chain
  kind := (requirementEvidence rule.requirement).1
  target := (requirementEvidence rule.requirement).2.1
  requiredFields := (requirementEvidence rule.requirement).2.2.1
  minVersion := (requirementEvidence rule.requirement).2.2.2

theorem requirementSatisfied_plain (h : isPlain rule.requirement = true) (db : Database) (chain : List RuleScope) :
    requirementSatisfied db rule chain = (demandOf rule chain).check db := by
  unfold requirementSatisfied demandOf check
  cases hRequirement : rule.requirement <;> rw [hRequirement] at h <;> first | rfl | cases h

theorem unblockHint_plain (h : isPlain acting.rule.requirement = true) (trigger : RuleTrigger)
    (staged : List (PlanId × Option PlanId)) :
    (unblockHint acting trigger staged).evidenceKind = some (demandOf acting.rule []).kind ∧
      (unblockHint acting trigger staged).evidenceTarget = (demandOf acting.rule []).target ∧
      (unblockHint acting trigger staged).evidenceScope =
        advisedScope (demandOf acting.rule []).kind.reach acting.chain trigger staged := by
  unfold unblockHint demandOf
  dsimp only
  cases hRequirement : acting.rule.requirement
  all_goals first
    | exact ⟨rfl, rfl, rfl⟩
    | (rw [hRequirement] at h; cases h)

/-- The full hexadecimal name of a revision. -/
def validRevision (sourceRevision : String) : Bool :=
  (byteLength sourceRevision = 40 || byteLength sourceRevision = 64) &&
    sourceRevision.toList.all fun c => c.isDigit || ('a' ≤ c && c ≤ 'f') || ('A' ≤ c && c ≤ 'F')

/-- The evidence is the attestation of a passing test by an actor that is known, and is
not the executor. -/
def attests (executorId : AgentId) (evidence : Evidence) : Bool :=
  evidence.authenticatedActorId.isSome && evidence.authenticatedActorId = evidence.actor.id &&
    evidence.actor.id ≠ some executorId && match evidence.payload.get? "passed" with
      | some (.bool true) => true
      | _ => false

structure AsHinted (db : Database) (rule : Rule) (hint : UnblockHint) (evidence : Evidence) : Prop where
  recorded : evidence ∈ db.evidence
  last : ∀ other ∈ db.evidence.rows, newer other evidence = false
  live : evidence.supersededBy = none
  kind : hint.evidenceKind = some evidence.kind
  scope : hint.evidenceScope = some evidence.scope
  target : ∀ target, hint.evidenceTarget = some target → evidence.target = some target
  fields : ∀ field ∈ (demandOf rule []).requiredFields, fieldMissing evidence field = false
  version : ∀ version, (demandOf rule []).rule db = .ok version → Accepts evidence version
  attested : ∀ executorId sourceRevision, rule.requirement = .independentTestVerification executorId sourceRevision →
    attests executorId evidence = true

/-- A hint that asks for evidence is good: the scope that it names is stored, the
evidence satisfies the rule when the command is given again, and where it names none, no
evidence of what is stored does. -/
structure HintWorks (db : Database) (acting : Acting) (hint : UnblockHint) (kept created : List RuleScope) : Prop where
  persisted : hint.evidenceKind.isSome = true → ∀ scope, hint.evidenceScope = some scope → scope.Stored db
  satisfies : ∀ created', Anew db created created' → ∀ after evidence, AsHinted after acting.rule hint evidence →
    (requirementSatisfied after acting.rule (kept ++ created')).satisfied = true
  absent : hint.evidenceKind.isSome = true → hint.evidenceScope = none → ∀ created', Anew db created created' →
    ∀ after : Database, (∀ evidence ∈ after.evidence, evidence.scope.Stored db) →
      (requirementSatisfied after acting.rule (kept ++ created')).satisfied = false

/-- When a hint is good: a test of a revision is asked for a task that is not created by
the command, and a full revision; a reading, of a version that is one. -/
def Hintable (rule : Rule) (kept created : List RuleScope) : Prop :=
  match rule.requirement with
  | .independentTestVerification _ sourceRevision =>
    created = [] ∧ (∃ id, kept.getLast? = some (.task id)) ∧ validRevision sourceRevision = true
  | .readArtifact _ minVersion => minVersion = "latest" ∨ (parseVersion minVersion).isSome = true
  | _ => True

include h in
theorem Anew.refl : Anew db created created := ⟨rfl, h.absent⟩

theorem Anew.nil (h : Anew db [] created') : created' = [] := map_eq_nil_iff.mp h.ranks

def VersionNamed (rule : Rule) : Prop := ∀ db, ∃ version, (demandOf rule []).rule db = .ok version

theorem plain_works (h : Stands db trigger staged acting.chain kept created) (hPlain : isPlain acting.rule.requirement = true)
    (hVersion : VersionNamed acting.rule) : HintWorks db acting (unblockHint acting trigger staged) kept created := by
  obtain ⟨hKind, hTarget, hScope⟩ := unblockHint_plain hPlain trigger staged
  constructor
  · intro _ scope hIs
    rw [hScope, h.advised] at hIs
    exact h.stored scope (mem_of_mem_drop (mem_of_getLast? hIs))
  · intro created' hAnew after evidence hHinted
    rw [requirementSatisfied_plain hPlain]
    have hSameKind : evidence.kind = (demandOf acting.rule []).kind := Option.some.inj (hHinted.kind.symm.trans hKind)
    have hReach : InReach (kept ++ created') (demandOf acting.rule []).kind.reach evidence.scope :=
      h.advised_reach hAnew (hScope.symm.trans hHinted.scope)
    obtain ⟨version, hRule⟩ := hVersion after
    have hRuleHere : (demandOf acting.rule (kept ++ created')).rule after = .ok version := hRule
    refine check_iff.mpr ⟨evidence, hHinted.recorded, ⟨hReach, ?_, hHinted.fields, ?_⟩, ?_⟩
    · have hMatches : (demandOf acting.rule (kept ++ created')).matchesTarget after evidence = true := by
        unfold matchesTarget
        cases hAsked : (demandOf acting.rule (kept ++ created')).target with
        | none => rfl
        | some target =>
          have hSame := hHinted.target target (hTarget.trans hAsked)
          simp [hSame]
      unfold candidate
      rw [hMatches, hHinted.live]
      simp only [decide_true, Bool.true_and, Option.isNone_none, Bool.and_true, decide_eq_true_eq]
      exact hSameKind
    · exact (rule_ok hRuleHere evidence).2.mp (hHinted.version version hRule)
    · have hNone : (demandOf acting.rule (kept ++ created')).newerCandidates after evidence = 0 := by
        unfold EvidenceDemand.newerCandidates
        refine countP_eq_zero.mpr fun other hOther => ?_
        rw [hHinted.last other hOther, Bool.and_false]
        exact Bool.false_ne_true
      rw [hNone]
      decide
  · intro _ hNone created' hAnew after hStored
    rw [requirementSatisfied_plain hPlain]
    refine Bool.eq_false_iff.mpr fun hSatisfied => ?_
    obtain ⟨evidence, hMem, hQualifies, _⟩ := check_iff.mp hSatisfied
    exact h.unadvised_reach hAnew (hScope.symm.trans hNone) hQualifies.reach (hStored evidence hMem)

private def recordedAs (kind : EvidenceKind) (scope : RuleScope) (target : Option String) (agentId : AgentId) : Evidence :=
  ⟨⟨0⟩, kind, scope, target, none, ⟨"agent", some agentId, none⟩, some agentId, "as asked", .object [("passed", .bool true)],
    none, none, none, none, none, none, 0, none⟩

private def afterRecording (db : Database) (evidence : Evidence) : Database :=
  { db with evidence := KeyedTable.empty.upsert evidence }

private theorem mem_afterRecording {other : Evidence} : other ∈ (afterRecording db evidence).evidence ↔ other = evidence := by
  unfold afterRecording
  dsimp only
  rw [KeyedTable.mem_upsert]
  constructor
  · rintro (hIs | ⟨hOld, _⟩)
    · exact hIs
    · exact absurd hOld (KeyedTable.not_mem_empty _)
  · exact .inl

private theorem newer_self (evidence : Evidence) : newer evidence evidence = false := by
  simp [newer]

variable {executorId : AgentId} {sourceRevision : String}

theorem satisfied_independent (h : rule.requirement = .independentTestVerification executorId sourceRevision) :
    (requirementSatisfied db rule chain).satisfied = match chain.getLast? with
      | some (.task id) => validRevision sourceRevision && hasIndependentTestVerification db id executorId sourceRevision
      | _ => false := by
  unfold requirementSatisfied
  rw [h]
  rfl

theorem independent_satisfied (h : rule.requirement = .independentTestVerification executorId sourceRevision) :
    (requirementSatisfied db rule chain).satisfied = true ↔ ∃ id, chain.getLast? = some (.task id) ∧
      validRevision sourceRevision = true ∧ hasIndependentTestVerification db id executorId sourceRevision = true := by
  rw [satisfied_independent h]
  cases chain.getLast? with
  | none => simp
  | some scope => cases scope <;> simp

theorem unblockHint_independent {executorId : AgentId} {sourceRevision : String}
    (h : acting.rule.requirement = .independentTestVerification executorId sourceRevision) :
    (unblockHint acting trigger staged).evidenceKind = some .artifactCreated ∧
      (unblockHint acting trigger staged).evidenceTarget = some ("test-verification:" ++ sourceRevision) ∧
      (unblockHint acting trigger staged).evidenceScope = acting.chain.getLast? := by
  unfold unblockHint
  dsimp only
  rw [h]
  exact ⟨rfl, rfl, rfl⟩

theorem independent_works {id : TaskId} (h : Stands db trigger staged acting.chain kept [])
    (hRequirement : acting.rule.requirement = .independentTestVerification executorId sourceRevision)
    (hLast : kept.getLast? = some (.task id)) (hRevision : validRevision sourceRevision = true) :
    HintWorks db acting (unblockHint acting trigger staged) kept [] := by
  obtain ⟨hKind, hTarget, hScope⟩ := @unblockHint_independent trigger staged acting executorId sourceRevision hRequirement
  have hChain : acting.chain = kept := h.split.trans (append_nil kept)
  rw [hChain, hLast] at hScope
  constructor
  · intro _ scope hIs
    cases hScope.symm.trans hIs
    exact h.stored _ (mem_of_getLast? hLast)
  · intro created' hAnew after evidence hHinted
    rw [hAnew.nil, append_nil]
    refine (independent_satisfied hRequirement).mpr ⟨id, hLast, hRevision, ?_⟩
    refine any_eq_true.mpr ⟨evidence, hHinted.recorded, ?_⟩
    have hSameKind : evidence.kind = .artifactCreated := Option.some.inj (hHinted.kind.symm.trans hKind)
    have hSameScope : evidence.scope = .task id := Option.some.inj (hHinted.scope.symm.trans hScope)
    have hAttests := hHinted.attested executorId sourceRevision hRequirement
    unfold attests at hAttests
    simp only [Bool.and_eq_true, decide_eq_true_eq] at hAttests
    obtain ⟨⟨⟨hKnown, hSame⟩, hOther⟩, hPassed⟩ := hAttests
    simp only [Bool.and_eq_true, decide_eq_true_eq]
    exact ⟨⟨⟨⟨⟨⟨⟨hSameScope, hSameKind⟩, hHinted.target _ hTarget⟩, hHinted.live⟩, hKnown⟩, hSame⟩, hOther⟩, hPassed⟩
  · intro _ hNone
    cases hScope.symm.trans hNone

theorem independent_hintable (h : Stands db trigger staged acting.chain kept created)
    (hRequirement : acting.rule.requirement = .independentTestVerification executorId sourceRevision)
    (hWorks : HintWorks db acting (unblockHint acting trigger staged) kept created) :
    created = [] ∧ (∃ id, kept.getLast? = some (.task id)) ∧ validRevision sourceRevision = true := by
  obtain ⟨hKind, hTarget, hScope⟩ := @unblockHint_independent trigger staged acting executorId sourceRevision hRequirement
  have hAsks : (unblockHint acting trigger staged).evidenceKind.isSome = true := by
    rw [hKind]
    rfl
  have hNothing : created = [] := by
    by_contra hSome
    have hLast : acting.chain.getLast? = some (created.getLast hSome) := by
      rw [h.split, getLast?_append_of_ne_nil _ hSome]
      exact getLast?_eq_some_getLast hSome
    exact h.absent _ (getLast_mem hSome) (hWorks.persisted hAsks _ (hScope.trans hLast))
  subst hNothing
  have hChain : acting.chain = kept := h.split.trans (append_nil kept)
  obtain ⟨last, hLast⟩ : ∃ last, kept.getLast? = some last := ⟨_, getLast?_eq_some_getLast h.root⟩
  have hAgent : (⟨executorId.uuid + 1⟩ : AgentId) ≠ executorId := by
    intro hSame
    have hUuid := congrArg Id.uuid hSame
    dsimp only at hUuid
    omega
  have hHinted : AsHinted (afterRecording db (recordedAs .artifactCreated last
      (some ("test-verification:" ++ sourceRevision)) ⟨executorId.uuid + 1⟩)) acting.rule (unblockHint acting trigger staged)
      (recordedAs .artifactCreated last (some ("test-verification:" ++ sourceRevision))
        ⟨executorId.uuid + 1⟩) := by
    have hDemand : (demandOf acting.rule []).requiredFields = [] ∧ (demandOf acting.rule []).minVersion = none := by
      unfold demandOf
      rw [hRequirement]
      exact ⟨rfl, rfl⟩
    refine ⟨mem_afterRecording.mpr rfl, fun other hOther => ?_, rfl, hKind, ?_, fun target hIs => ?_, ?_, ?_, ?_⟩
    · rw [mem_afterRecording.mp hOther]
      exact newer_self _
    · exact hScope.trans ((congrArg List.getLast? hChain).trans hLast)
    · cases hTarget.symm.trans hIs
      rfl
    · rw [hDemand.1]
      exact fun _ hField => absurd hField not_mem_nil
    · intro version hRule
      unfold rule at hRule
      rw [hDemand.2] at hRule
      cases hRule
      trivial
    · intro other otherRevision hIs
      cases hRequirement.symm.trans hIs
      unfold attests
      simp [recordedAs, JsonValue.get?, hAgent]
  have hSatisfied := hWorks.satisfies [] ⟨rfl, fun _ hMem => absurd hMem not_mem_nil⟩ _ _ hHinted
  rw [append_nil] at hSatisfied
  obtain ⟨id, hTask, hRevision, _⟩ := (independent_satisfied hRequirement).mp hSatisfied
  exact ⟨rfl, ⟨id, hTask⟩, hRevision⟩

theorem hintable_version (hPlain : isPlain rule.requirement = true) (h : Hintable rule kept created) : VersionNamed rule := by
  intro db
  unfold EvidenceDemand.rule demandOf
  unfold Hintable at h
  cases hRequirement : rule.requirement with
  | readArtifact docRef minVersion =>
    rw [hRequirement] at h
    dsimp only [requirementEvidence] at h ⊢
    by_cases hLatest : minVersion = "latest"
    · rw [if_pos hLatest]
      cases (some docRef).bind (currentDocumentVersion db) with
      | none => exact ⟨_, rfl⟩
      | some current => exact ⟨_, rfl⟩
    · rw [if_neg hLatest]
      obtain ⟨minimum, hParsed⟩ := Option.isSome_iff_exists.mp (h.resolve_left hLatest)
      rw [hParsed]
      exact ⟨_, rfl⟩
  | independentTestVerification | documentLinked | wipLimit =>
    rw [hRequirement] at hPlain
    cases hPlain
  | _ => exact ⟨_, rfl⟩

include h in
theorem Stands.advised_tenant : ∃ scope, advisedScope .tenant chain trigger staged = some scope := by
  have hStart : startOf .tenant chain = 0 := by
    have hRoot : chain ≠ [] := by
      rw [h.split]
      exact fun hNone => h.root (append_eq_nil_iff.mp hNone).1
    obtain ⟨first, rest, rfl⟩ := exists_cons_of_ne_nil hRoot
    unfold startOf reachCeiling
    simp [findIdx?_cons]
  rw [h.advised, hStart, drop_zero]
  exact ⟨_, getLast?_eq_some_getLast h.root⟩

theorem reading_hintable {docRef minVersion : String} (h : Stands db trigger staged acting.chain kept created)
    (hRequirement : acting.rule.requirement = .readArtifact docRef minVersion)
    (hWorks : HintWorks db acting (unblockHint acting trigger staged) kept created) :
    minVersion = "latest" ∨ (parseVersion minVersion).isSome = true := by
  by_contra hNot
  obtain ⟨hLatest, hParsed⟩ := not_or.mp hNot
  have hPlain : isPlain acting.rule.requirement = true := by
    rw [hRequirement]
    rfl
  obtain ⟨hKind, hTarget, hScope⟩ := unblockHint_plain hPlain trigger staged
  have hDemand : (demandOf acting.rule []).kind = .documentReadAck ∧ (demandOf acting.rule []).target = some docRef ∧
      (demandOf acting.rule []).requiredFields = [] := by
    unfold demandOf
    rw [hRequirement]
    exact ⟨rfl, rfl, rfl⟩
  have hError : ∀ (db : Database) (chain : List RuleScope), ∃ reason, (demandOf acting.rule chain).rule db = .error reason := by
    intro db chain
    unfold rule demandOf
    rw [hRequirement]
    dsimp only [requirementEvidence]
    rw [if_neg hLatest]
    cases hIs : parseVersion minVersion with
    | none => exact ⟨_, rfl⟩
    | some minimum =>
      rw [hIs] at hParsed
      exact absurd rfl hParsed
  obtain ⟨scope, hAdvised⟩ := h.advised_tenant
  rw [hDemand.1] at hKind hScope
  rw [hDemand.2.1] at hTarget
  have hHinted : AsHinted (afterRecording db (recordedAs .documentReadAck scope (some docRef) ⟨0⟩)) acting.rule
      (unblockHint acting trigger staged) (recordedAs .documentReadAck scope (some docRef) ⟨0⟩) := by
    refine ⟨mem_afterRecording.mpr rfl, fun other hOther => ?_, rfl, hKind, hScope.trans hAdvised, fun target hIs => ?_, ?_, ?_, ?_⟩
    · rw [mem_afterRecording.mp hOther]
      exact newer_self _
    · cases hTarget.symm.trans hIs
      rfl
    · rw [hDemand.2.2]
      exact fun _ hField => absurd hField not_mem_nil
    · intro version hRule
      obtain ⟨reason, hIs⟩ := hError (afterRecording db (recordedAs .documentReadAck scope (some docRef) ⟨0⟩)) []
      cases hIs.symm.trans hRule
    · intro executorId sourceRevision hIs
      cases hRequirement.symm.trans hIs
  have hSatisfied := hWorks.satisfies created (.refl h) _ _ hHinted
  obtain ⟨reason, hIs⟩ := hError (afterRecording db (recordedAs .documentReadAck scope (some docRef) ⟨0⟩)) (kept ++ created)
  rw [requirementSatisfied_plain hPlain, check_error hIs] at hSatisfied
  cases hSatisfied

theorem hint_works_iff (h : Stands db trigger staged acting.chain kept created) :
    HintWorks db acting (unblockHint acting trigger staged) kept created ↔ Hintable acting.rule kept created := by
  cases hRequirement : acting.rule.requirement with
  | independentTestVerification executorId sourceRevision =>
    have hHintable : Hintable acting.rule kept created ↔
        created = [] ∧ (∃ id, kept.getLast? = some (.task id)) ∧ validRevision sourceRevision = true := by
      unfold Hintable
      rw [hRequirement]
    rw [hHintable]
    constructor
    · exact independent_hintable h hRequirement
    · rintro ⟨rfl, ⟨id, hLast⟩, hRevision⟩
      exact independent_works h hRequirement hLast hRevision
  | documentLinked | wipLimit =>
    have hNone : (unblockHint acting trigger staged).evidenceKind = none := by
      unfold unblockHint
      dsimp only
      rw [hRequirement]
    have hHintable : Hintable acting.rule kept created := by
      unfold Hintable
      rw [hRequirement]
      trivial
    refine iff_of_true ⟨?_, ?_, ?_⟩ hHintable
    · intro hAsks
      rw [hNone] at hAsks
      cases hAsks
    · intro created' _ after evidence hHinted
      cases hNone.symm.trans hHinted.kind
    · intro hAsks
      rw [hNone] at hAsks
      cases hAsks
  | readArtifact docRef minVersion =>
    have hPlain : isPlain acting.rule.requirement = true := by
      rw [hRequirement]
      rfl
    have hHintable : Hintable acting.rule kept created ↔ minVersion = "latest" ∨ (parseVersion minVersion).isSome = true := by
      unfold Hintable
      rw [hRequirement]
    constructor
    · exact fun hWorks => hHintable.mpr (reading_hintable h hRequirement hWorks)
    · exact fun hIs => plain_works h hPlain (hintable_version hPlain hIs)
  | _ =>
    have hPlain : isPlain acting.rule.requirement = true := by
      rw [hRequirement]
      rfl
    have hHintable : Hintable acting.rule kept created := by
      unfold Hintable
      rw [hRequirement]
      trivial
    exact iff_of_true (plain_works h hPlain (hintable_version hPlain hHintable)) hHintable

private def hintsOf : Result (GateDecision × List RuleObservation) → List UnblockHint
  | .ok (.blocked _ _ _ unblock, _) => unblock
  | _ => []

private theorem blocked_of_hints {answer : Result (GateDecision × List RuleObservation)} (h : (hintsOf answer).isEmpty = false) :
    ∃ message outcomes warnings observations,
      answer = .ok (.blocked message outcomes warnings (hintsOf answer), observations) := by
  unfold hintsOf at h ⊢
  split at h
  · exact ⟨_, _, _, _, rfl⟩
  · cases h

private def ruled : Database := Server.run Server.engineConfig Handler.ruledRun

private def startCheck : GateCheck :=
  { GateCheck.new .taskBeforeStart with taskId := some ⟨7⟩, statusFrom := some .todo, statusTo := some .inProgress }

private def testRuled : Database := Server.run Server.engineConfig (Server.commands [
  .rule (.createRule ⟨none, "tested", "", .tenant, .taskCreated, none,
    .independentTestVerification ⟨5⟩ "0123456789012345678901234567890123456789", .required, "", false, true⟩)])

private def creationHints : List (Option EvidenceKind × Option RuleScope) :=
  match Handler.draftedBatch Server.engineConfig (Server.nthEnv 1) .internal (.task (.createTask (NewTask.new "task"))) .anyUser
    testRuled with
  | none => []
  | some (batch, _) => (LifecycleGate.deriveGateChecks batch).flatMap fun check =>
    (hintsOf (checkObserved testRuled (Server.nthEnv 1) .anyUser check ⟨false, none⟩)).map fun hint =>
      (hint.evidenceKind, hint.evidenceScope)

private def isCreatedTask (db : Database) : Option EvidenceKind × Option RuleScope → Bool
  | (some _, some (.task id)) => (db.tasks.find? id).isNone
  | _ => false

end RuleEngine
end Daruma
