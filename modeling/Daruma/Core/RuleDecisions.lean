import Daruma.Core.RuleAudit
import Daruma.Storage.RuleLocks

/-! What the rule engine decides on a check, in terms of the rules that the check leaves
unmet, and which batches the gate lets pass. -/
namespace Daruma

open List Stateful

/-- Each of the rules acts, and no other one, and none of them twice. -/
def ActsOnce (ids : List RuleId) (acts : Rule → Prop) : Prop :=
  ids.Nodup ∧ ∀ id, id ∈ ids ↔ ∃ rule, acts rule ∧ rule.id = id

namespace ActsOnce

variable {ids : List RuleId} {acts acts' : Rule → Prop} {rule : Rule} {here : Prop}

theorem again (h : ActsOnce ids acts) (hNow : ∀ other, acts' other ↔ acts other ∨ (other = rule ∧ here))
    (hActs : here → rule.id ∈ ids) : ActsOnce ids acts' := by
  refine ⟨h.1, fun id => ⟨fun hMem => ?_, ?_⟩⟩
  · obtain ⟨other, hOther, hId⟩ := (h.2 id).mp hMem
    exact ⟨other, (hNow other).mpr (.inl hOther), hId⟩
  · rintro ⟨other, hOther, rfl⟩
    rcases (hNow other).mp hOther with hOld | ⟨rfl, hHere⟩
    · exact (h.2 other.id).mpr ⟨other, hOld, rfl⟩
    · exact hActs hHere

theorem first (h : ActsOnce ids acts) (hNow : ∀ other, acts' other ↔ acts other ∨ (other = rule ∧ here))
    (hHere : here) (hNew : rule.id ∉ ids) : ActsOnce (ids ++ [rule.id]) acts' := by
  refine ⟨h.1.append (nodup_singleton _) (disjoint_singleton.mpr hNew), fun id => ?_⟩
  rw [mem_append, mem_singleton, h.2 id]
  constructor
  · rintro (⟨other, hOther, hId⟩ | rfl)
    · exact ⟨other, (hNow other).mpr (.inl hOther), hId⟩
    · exact ⟨rule, (hNow rule).mpr (.inr ⟨rfl, hHere⟩), rfl⟩
  · rintro ⟨other, hOther, rfl⟩
    rcases (hNow other).mp hOther with hOld | ⟨rfl, _⟩
    · exact .inl ⟨other, hOld, rfl⟩
    · exact .inr rfl

end ActsOnce

def ruleIds (outcomes : List MutationWarning) : List RuleId := outcomes.filterMap fun outcome => outcome.rule.map Prod.fst

namespace GateDecision

def acting : GateDecision → List RuleId
  | .overridden bypassed _ _ => ruleIds bypassed
  | .blocked _ outcomes _ _ => ruleIds outcomes
  | _ => []

def advising : GateDecision → List RuleId
  | .allowed => []
  | .warning warnings | .overridden _ warnings _ | .blocked _ _ warnings _ => ruleIds warnings

def blocks : GateDecision → Bool
  | .blocked .. => true
  | _ => false

def overrides : GateDecision → Bool
  | .overridden .. => true
  | _ => false

end GateDecision

namespace RuleEngine

open Ancestry DirectedGraph
open GateStage (gated consult Trail)
open LifecycleGate (deriveGateChecks)

variable {db : Database} {check : GateCheck} {chains : List (List RuleScope)} {chain : List RuleScope} {rule : Rule}
  {mode : RuleMode}

def CyclicAt (db : Database) (staged : List (PlanId × Option PlanId)) (plan above : PlanId) : Prop :=
  Reaches (Link (planParent db staged)) plan above ∧ Relation.TransGen (Link (planParent db staged)) above above

def Cyclic (db : Database) (check : GateCheck) : Prop :=
  ∃ plan ∈ checkPlans db check, ∃ above, CyclicAt db check.pendingPlans plan above

def cyclicError (plan : PlanId) : CoreError := .conflict s!"cyclic plan scope ancestry at plan {plan}"

structure Climbed (parent : PlanId → Option PlanId) (plan : PlanId) (path : List PlanId) (current : PlanId) : Prop where
  passes : ∀ on ∈ path, Reaches (Link parent) plan on ∧ Reaches (Link parent) on current
  goesOn : ∀ on ∈ path, on ≠ current → ∃ above ∈ path, parent on = some above
  starts : plan ∈ path
  ends : current ∈ path
  distinct : path.Nodup

variable {staged : List (PlanId × Option PlanId)} {plan current above : PlanId} {path ancestry : List PlanId}
  {parent : PlanId → Option PlanId}

theorem Climbed.up (h : Climbed parent plan path current) (hParent : parent current = some above)
    (hNew : above ∉ path) : Climbed parent plan (above :: path) above where
  passes on hOn := by
    have hCurrent := (h.passes current h.ends).1
    rcases mem_cons.mp hOn with rfl | hOn
    · exact ⟨hCurrent.tail hParent, .refl⟩
    · exact ⟨(h.passes on hOn).1, (h.passes on hOn).2.tail hParent⟩
  goesOn on hOn hOther := by
    have hOld := (mem_cons.mp hOn).resolve_left hOther
    by_cases hIs : on = current
    · exact ⟨above, mem_cons_self, hIs ▸ hParent⟩
    · obtain ⟨next, hMem, hNext⟩ := h.goesOn on hOld hIs
      exact ⟨next, mem_cons_of_mem _ hMem, hNext⟩
  starts := mem_cons_of_mem _ h.starts
  ends := mem_cons_self
  distinct := nodup_cons.mpr ⟨hNew, h.distinct⟩

/-- A way up to a plan without parent passes all plans above the first one, and none
of them twice. -/
theorem Climbed.complete (h : Climbed parent plan path current) (hTop : parent current = none) :
    (∀ above, above ∈ path ↔ Reaches (Link parent) plan above) ∧
      ∀ above, Reaches (Link parent) plan above → ¬Relation.TransGen (Link parent) above above := by
  have hClosed : ∀ above, Reaches (Link parent) plan above → above ∈ path := fun above hReaches =>
    @mem_of_closed _ _ (fun on => on ∈ path) _ _ h.starts (fun on next hOn hLink => by
      obtain ⟨other, hOther, hIs⟩ := h.goesOn on hOn (fun hIs => by cases hTop.symm.trans (hIs ▸ hLink))
      exact Option.some.inj (hIs.symm.trans hLink) ▸ hOther) hReaches
  refine ⟨fun above => ⟨fun hOn => (h.passes above hOn).1, hClosed above⟩, fun above hReaches hCycle => ?_⟩
  have hBack := returns_of_cycle hCycle (h.passes above (hClosed above hReaches)).2
  obtain ⟨next, hLink, _⟩ := Relation.TransGen.head'_iff.mp hBack
  cases hTop.symm.trans hLink

def knownPlans (db : Database) (staged : List (PlanId × Option PlanId)) : List PlanId :=
  staged.map Prod.fst ++ db.plans.rows.map Plan.id

theorem mem_knownPlans (h : planParent db staged plan = some above) : plan ∈ knownPlans db staged := by
  unfold planParent at h
  split at h
  · rename_i hFound
    have hIs : decide (_ = plan) = true := find?_some (p := fun entry : PlanId × Option PlanId => decide (entry.1 = plan)) hFound
    exact mem_append_left _ (mem_map.mpr ⟨_, mem_of_find?_eq_some hFound, of_decide_eq_true hIs⟩)
  · obtain ⟨stored, hStored, _⟩ := Option.map_eq_some_iff.mp (Option.join_eq_some_iff.mp h)
    obtain ⟨hMem, hIs⟩ := KeyedTable.find?_eq_some_iff.mp hStored
    exact mem_append_right _ (mem_map.mpr ⟨stored, hMem, hIs⟩)

theorem walkAncestry_ends {steps : Nat} (h : Climbed (planParent db staged) plan path current)
    (hSteps : steps + path.length = (knownPlans db staged).length + 2) :
    (∃ above, CyclicAt db staged plan above ∧ walkAncestry db staged steps path current = .error (cyclicError above)) ∨
    (∀ above, ¬CyclicAt db staged plan above) ∧ ∃ ancestry, walkAncestry db staged steps path current = .ok ancestry ∧
      ∀ above, above ∈ ancestry ↔ Reaches (Link (planParent db staged)) plan above := by
  induction steps generalizing path current with
  | zero =>
    -- all plans on the way but the last one have a parent, so they are known
    have hKnown : path.erase current ⊆ knownPlans db staged := by
      intro on hOn
      obtain ⟨hOther, hOn⟩ := h.distinct.mem_erase_iff.mp hOn
      obtain ⟨_, _, hParent⟩ := h.goesOn on hOn hOther
      exact mem_knownPlans hParent
    have hLe := (subperm_of_subset (h.distinct.erase current) hKnown).length_le
    have hErased := length_erase_of_mem h.ends
    omega
  | succ steps ih =>
    unfold walkAncestry
    cases hParent : planParent db staged current with
    | none =>
      obtain ⟨hAll, hNone⟩ := h.complete hParent
      exact .inr ⟨fun above hCyclic => hNone above hCyclic.1 hCyclic.2, path, rfl, hAll⟩
    | some next =>
      by_cases hSeen : next ∈ path
      · have hUp := h.passes next hSeen
        exact .inl ⟨next, ⟨hUp.1, .tail' hUp.2 hParent⟩, if_pos hSeen⟩
      · dsimp only
        rw [if_neg hSeen]
        exact ih (h.up hParent hSeen) (by rw [length_cons]; omega)

theorem planAncestry_ends (db : Database) (staged : List (PlanId × Option PlanId)) (plan : PlanId) :
    (∃ above, CyclicAt db staged plan above ∧ planAncestry db plan staged = .error (cyclicError above)) ∨
    (∀ above, ¬CyclicAt db staged plan above) ∧ ∃ ancestry, planAncestry db plan staged = .ok ancestry ∧
      ∀ above, above ∈ ancestry ↔ Reaches (Link (planParent db staged)) plan above := by
  refine walkAncestry_ends ⟨fun on hOn => ?_, fun on hOn hOther => absurd (mem_singleton.mp hOn) hOther,
    mem_cons_self, mem_cons_self, nodup_singleton plan⟩ ?_
  · cases mem_singleton.mp hOn
    exact ⟨.refl, .refl⟩
  · rw [knownPlans, length_append, length_map, length_map, length_singleton]

/-- Every plan of the check has a chain, through exactly the plans above it. -/
def Ascends (db : Database) (check : GateCheck) (chains : List (List RuleScope)) : Prop :=
  ∀ plan ∈ checkPlans db check, ∃ chain ∈ chains, ∀ above,
    .plan above ∈ chain ↔ Reaches (Link (planParent db check.pendingPlans)) plan above

theorem plan_mem_scopeChain : .plan above ∈ scopeChain check ancestry ↔ above ∈ ancestry := by
  simp [scopeChain]

theorem scopeChains_ends (db : Database) (check : GateCheck) :
    (Cyclic db check ∧ ∃ above, scopeChains db check = .error (cyclicError above)) ∨
      (¬Cyclic db check ∧ ∃ chains, scopeChains db check = .ok chains ∧ Ascends db check chains) := by
  have hAll : ∀ plans : List PlanId,
      ((∃ plan ∈ plans, ∃ above, CyclicAt db check.pendingPlans plan above) ∧
        ∃ above, chainsOf db check plans = .error (cyclicError above)) ∨
      ((¬∃ plan ∈ plans, ∃ above, CyclicAt db check.pendingPlans plan above) ∧
        ∃ chains, chainsOf db check plans = .ok chains ∧ ∀ plan ∈ plans, ∃ chain ∈ chains, ∀ above,
          .plan above ∈ chain ↔ Reaches (Link (planParent db check.pendingPlans)) plan above) := by
    intro plans
    induction plans with
    | nil => exact .inr ⟨fun ⟨_, hMem, _⟩ => not_mem_nil hMem, [], rfl, fun _ hMem => absurd hMem not_mem_nil⟩
    | cons plan rest ih =>
      unfold chainsOf
      rcases planAncestry_ends db check.pendingPlans plan with ⟨above, hCyclic, hError⟩ | ⟨hNone, ancestry, hOk, hAbove⟩
      · rw [hError]
        exact .inl ⟨⟨plan, mem_cons_self, above, hCyclic⟩, above, rfl⟩
      · rw [hOk]
        rcases ih with ⟨⟨other, hMem, hCyclic⟩, above, hError⟩ | ⟨hRest, chains, hChains, hIn⟩
        · rw [hError]
          exact .inl ⟨⟨other, mem_cons_of_mem _ hMem, hCyclic⟩, above, rfl⟩
        · rw [hChains]
          refine .inr ⟨?_, _, rfl, fun other hMem => ?_⟩
          · rintro ⟨other, hMem, above, hCyclic⟩
            rcases mem_cons.mp hMem with rfl | hMem
            · exact hNone above hCyclic
            · exact hRest ⟨other, hMem, above, hCyclic⟩
          · rcases mem_cons.mp hMem with rfl | hMem
            · exact ⟨_, mem_cons_self, fun above => plan_mem_scopeChain.trans (hAbove above)⟩
            · obtain ⟨chain, hChain, hIs⟩ := hIn other hMem
              exact ⟨chain, mem_cons_of_mem _ hChain, hIs⟩
  unfold scopeChains Cyclic Ascends
  dsimp only
  by_cases hNone : (checkPlans db check).isEmpty
  · rw [if_pos hNone, isEmpty_iff.mp hNone]
    exact .inr ⟨fun ⟨_, hMem, _⟩ => not_mem_nil hMem, _, rfl, fun _ hMem => absurd hMem not_mem_nil⟩
  · rw [if_neg hNone]
    exact hAll (checkPlans db check)

/-- The rule is in force on some chain, and the check meets its condition but leaves its
requirement unmet. -/
def Unmet (db : Database) (check : GateCheck) (chains : List (List RuleScope)) (mode : RuleMode) (rule : Rule) : Prop :=
  rule.mode = mode ∧ conditionMatches rule.condition check = true ∧ ∃ chain ∈ chains,
    rule ∈ RuleRepo.effectiveRules db.rules chain check.trigger ∧ (satisfaction db check chain rule).1.satisfied = false

def Fails (db : Database) (check : GateCheck) (seen : List (List RuleScope × Rule)) (mode : RuleMode) (rule : Rule) :
    Prop :=
  rule.mode = mode ∧ conditionMatches rule.condition check = true ∧ ∃ chain,
    (chain, rule) ∈ seen ∧ (satisfaction db check chain rule).1.satisfied = false

variable {seen : List (List RuleScope × Rule)} {acc : Evaluation} {other : Rule}

theorem fails_concat : Fails db check (seen ++ [(chain, rule)]) mode other ↔ Fails db check seen mode other ∨
    (other = rule ∧ rule.mode = mode ∧ conditionMatches rule.condition check = true ∧
      (satisfaction db check chain rule).1.satisfied = false) := by
  unfold Fails
  constructor
  · rintro ⟨hMode, hMeets, on, hMem, hUnmet⟩
    rcases mem_append.mp hMem with hOld | hNew
    · exact .inl ⟨hMode, hMeets, on, hOld, hUnmet⟩
    · cases mem_singleton.mp hNew
      exact .inr ⟨rfl, hMode, hMeets, hUnmet⟩
  · rintro (⟨hMode, hMeets, on, hOld, hUnmet⟩ | ⟨rfl, hMode, hMeets, hUnmet⟩)
    · exact ⟨hMode, hMeets, on, mem_append_left _ hOld, hUnmet⟩
    · exact ⟨hMode, hMeets, chain, mem_append_right _ mem_cons_self, hUnmet⟩

structure Tally (db : Database) (check : GateCheck) (seen : List (List RuleScope × Rule)) (acc : Evaluation) : Prop where
  acting : ActsOnce (acc.acting.map fun entry => entry.rule.id) (Fails db check seen .required)
  blocks : ∀ entry ∈ acc.acting, Fails db check seen .required entry.rule
  advising : ActsOnce (ruleIds acc.warnings) (Fails db check seen .recommendation)
  noted : ∀ id, (∃ o ∈ acc.observations, o.ruleId = id ∧ o.triggered = true) ↔ id ∈ ruleIds acc.warnings

theorem triggered_observe {observations : List RuleObservation} {id : RuleId} :
    (∃ o ∈ observe rule observations, o.ruleId = id ∧ o.triggered = true) ↔
      ∃ o ∈ observations, o.ruleId = id ∧ o.triggered = true := by
  unfold observe
  split
  · simp
  · rfl

theorem exists_observe (hMode : rule.mode = .recommendation) (observations : List RuleObservation) :
    ∃ o ∈ observe rule observations, o.ruleId = rule.id := by
  unfold observe
  split
  · exact ⟨_, mem_append_right _ mem_cons_self, rfl⟩
  · rename_i hNot
    by_contra hNone
    refine hNot ⟨hMode, fun hAny => ?_⟩
    obtain ⟨o, hMem, hIs⟩ := any_eq_true.mp hAny
    exact hNone ⟨o, hMem, of_decide_eq_true hIs⟩

/-- A rule that holds, or acts already, changes nothing but the observations. -/
theorem Tally.idle (h : Tally db check seen acc)
    (hActs : ∀ mode, rule.mode = mode → conditionMatches rule.condition check = true →
      (satisfaction db check chain rule).1.satisfied = false →
      (mode = .required → rule.id ∈ acc.acting.map fun entry => entry.rule.id) ∧
        (mode = .recommendation → rule.id ∈ ruleIds acc.warnings)) :
    Tally db check (seen ++ [(chain, rule)]) { acc with observations := observe rule acc.observations } where
  acting := h.acting.again (fun _ => fails_concat) fun ⟨hMode, hMeets, hUnmet⟩ => (hActs _ hMode hMeets hUnmet).1 rfl
  blocks entry hMem := fails_concat.mpr (.inl (h.blocks entry hMem))
  advising := h.advising.again (fun _ => fails_concat) fun ⟨hMode, hMeets, hUnmet⟩ => (hActs _ hMode hMeets hUnmet).2 rfl
  noted id := triggered_observe.trans (h.noted id)

theorem Tally.step (h : Tally db check seen acc) :
    Tally db check (seen ++ [(chain, rule)]) (evaluateRule db check chain acc rule) := by
  unfold evaluateRule
  dsimp only
  split
  · rename_i hInert
    refine h.idle fun mode hMode hMeets _ => ?_
    rcases hInert with hOff | hUnmatched
    · cases hMode.symm.trans hOff
      exact ⟨nofun, nofun⟩
    · exact absurd hMeets hUnmatched
  · rename_i hForce
    obtain ⟨_, hMeets⟩ := not_or.mp hForce
    rw [not_not] at hMeets
    split
    · rename_i hSatisfied
      exact h.idle fun _ _ _ hUnmet => by cases hUnmet.symm.trans hSatisfied
    · rename_i hUnmet
      have hUnmet := Bool.eq_false_iff.mpr hUnmet
      cases hMode : rule.mode with
      | off =>
        refine h.idle fun mode hIs _ _ => ?_
        cases hIs.symm.trans hMode
        exact ⟨nofun, nofun⟩
      | recommendation =>
        dsimp only
        split
        · rename_i hAny
          obtain ⟨o, hMem, hIs⟩ := any_eq_true.mp hAny
          rw [Bool.and_eq_true, decide_eq_true_eq] at hIs
          refine h.idle fun mode hIs' _ _ => ?_
          cases hIs'.symm.trans hMode
          exact ⟨nofun, fun _ => (h.noted rule.id).mp (triggered_observe.mp ⟨o, hMem, hIs⟩)⟩
        · rename_i hNone
          have hNew : rule.id ∉ ruleIds acc.warnings := fun hMem => hNone (by
            obtain ⟨o, hMem, hId, hTriggered⟩ := triggered_observe.mpr ((h.noted rule.id).mpr hMem)
            exact any_eq_true.mpr ⟨o, hMem, by rw [hTriggered, decide_eq_true hId]; rfl⟩)
          have hIds : ruleIds (acc.warnings ++ [ruleWarning rule]) = ruleIds acc.warnings ++ [rule.id] :=
            filterMap_append
          refine ⟨h.acting.again (fun _ => fails_concat) fun ⟨hOther, _⟩ => ?_,
            fun entry hMem => fails_concat.mpr (.inl (h.blocks entry hMem)), ?_, fun id => ?_⟩
          · cases hMode.symm.trans hOther
          · rw [hIds]
            exact h.advising.first (fun _ => fails_concat) ⟨hMode, hMeets, hUnmet⟩ hNew
          · rw [hIds, mem_append, ← h.noted id, ← @triggered_observe rule acc.observations id, mem_singleton]
            constructor
            · rintro ⟨_, hMarked, hId, hTriggered⟩
              obtain ⟨o, hMem, rfl⟩ := mem_map.mp hMarked
              by_cases hSame : o.ruleId = rule.id
              · rw [if_pos hSame] at hId
                exact .inr (hId.symm.trans hSame)
              · rw [if_neg hSame] at hId hTriggered
                exact .inl ⟨o, hMem, hId, hTriggered⟩
            · rintro (⟨o, hMem, hId, hTriggered⟩ | rfl)
              · refine ⟨_, mem_map_of_mem hMem, ?_⟩
                split
                · exact ⟨hId, rfl⟩
                · exact ⟨hId, hTriggered⟩
              · obtain ⟨o, hMem, hId⟩ := exists_observe hMode acc.observations
                refine ⟨_, mem_map_of_mem hMem, ?_⟩
                rw [if_pos hId]
                exact ⟨hId, rfl⟩
      | required =>
        dsimp only
        split
        · rename_i hAny
          obtain ⟨entry, hMem, hIs⟩ := any_eq_true.mp hAny
          refine h.idle fun mode hIs' _ _ => ?_
          cases hIs'.symm.trans hMode
          exact ⟨fun _ => mem_map.mpr ⟨entry, hMem, of_decide_eq_true hIs⟩, nofun⟩
        · rename_i hNone
          have hNew : rule.id ∉ acc.acting.map fun entry => entry.rule.id := fun hMem => hNone (by
            obtain ⟨entry, hMem, hIs⟩ := mem_map.mp hMem
            exact any_eq_true.mpr ⟨entry, hMem, decide_eq_true hIs⟩)
          refine ⟨?_, fun entry hMem => ?_, h.advising.again (fun _ => fails_concat) fun ⟨hOther, _⟩ => ?_,
            fun id => triggered_observe.trans (h.noted id)⟩
          · rw [map_append]
            exact h.acting.first (fun _ => fails_concat) ⟨hMode, hMeets, hUnmet⟩ hNew
          · rcases mem_append.mp hMem with hOld | hLast
            · exact fails_concat.mpr (.inl (h.blocks entry hOld))
            · cases mem_singleton.mp hLast
              exact fails_concat.mpr (.inr ⟨rfl, hMode, hMeets, hUnmet⟩)
          · cases hMode.symm.trans hOther

def inForce (db : Database) (check : GateCheck) (chains : List (List RuleScope)) : List (List RuleScope × Rule) :=
  chains.flatMap fun chain => (RuleRepo.effectiveRules db.rules chain check.trigger).map (Prod.mk chain)

theorem fails_inForce : Fails db check (inForce db check chains) mode rule ↔ Unmet db check chains mode rule := by
  have hSeen : ∀ chain, (chain, rule) ∈ inForce db check chains ↔
      chain ∈ chains ∧ rule ∈ RuleRepo.effectiveRules db.rules chain check.trigger := fun chain => by simp [inForce]
  simp only [Fails, Unmet, hSeen, and_assoc]

theorem tally_evaluate : Tally db check (inForce db check chains) (evaluate db check chains) := by
  have hFold : evaluate db check chains =
      (inForce db check chains).foldl (fun acc entry => evaluateRule db check entry.1 acc entry.2) ⟨[], [], []⟩ := by
    rw [inForce, foldl_flatMap]
    simp only [foldl_map]
    rfl
  rw [hFold]
  induction inForce db check chains using reverseRecOn with
  | nil =>
    have hNone : ∀ mode rule, ¬Fails db check [] mode rule := fun _ _ ⟨_, _, _, hMem, _⟩ => not_mem_nil hMem
    have hIdle : ∀ mode, ActsOnce [] (Fails db check [] mode) := fun mode =>
      ⟨nodup_nil, fun _ => ⟨fun hMem => absurd hMem not_mem_nil, fun ⟨rule, hFails, _⟩ => absurd hFails (hNone mode rule)⟩⟩
    exact ⟨hIdle _, fun _ hMem => absurd hMem not_mem_nil, hIdle _, fun _ =>
      ⟨fun ⟨_, hMem, _⟩ => absurd hMem not_mem_nil, fun hMem => absurd hMem not_mem_nil⟩⟩
  | append_singleton seen entry ih =>
    rw [foldl_append]
    exact ih.step

theorem mem_chosenRules {rules : Rules} {trigger : RuleTrigger} {depth : Nat} {chosen : List (Nat × Rule)}
    (hChosen : ∀ entry ∈ chosen, entry.2 ∈ rules) {entry : Nat × Rule}
    (h : entry ∈ RuleRepo.chosenRules rules trigger depth chosen chain) : entry.2 ∈ rules := by
  induction chain generalizing depth chosen with
  | nil => exact hChosen entry h
  | cons scope inner ih =>
    refine ih ?_ h
    refine foldlRecOn (motive := fun made : List (Nat × Rule) => ∀ entry ∈ made, entry.2 ∈ rules) _ _ hChosen fun made hMade rule hRule entry hEntry => ?_
    rcases RuleRepo.mem_chooseRule hEntry with hOld | hNew
    · exact hMade entry hOld
    · exact hNew ▸ mem_of_mem_filter hRule

theorem unmet_stored (h : Unmet db check chains mode rule) : rule ∈ db.rules := by
  obtain ⟨_, _, chain, _, hForce, _⟩ := h
  obtain ⟨hMem, _⟩ := mem_filter.mp ((perm_insertionSort _ _).mem_iff.mp hForce)
  obtain ⟨entry, hEntry, rfl⟩ := mem_map.mp hMem
  exact mem_chosenRules (fun _ hMem => absurd hMem not_mem_nil) hEntry

/-- The override carries a reason that is not blank, and all required rules that are
unmet allow it. -/
def Overrides (db : Database) (check : GateCheck) (chains : List (List RuleScope)) (override : GateOverride) : Prop :=
  override.force = true ∧ (∃ reason, override.overrideReason = some reason ∧ trim reason ≠ "") ∧
    ∀ rule, Unmet db check chains .required rule → rule.overrideAllowed = true

variable {override : GateOverride} {found : Evaluation}

theorem overrideReason_isSome (h : Tally db check (inForce db check chains) found) :
    (overrideReason override found.acting).isSome = true ↔ Overrides db check chains override := by
  have hAllowed : (found.acting.all fun entry => entry.rule.overrideAllowed) = true ↔
      ∀ rule, Unmet db check chains .required rule → rule.overrideAllowed = true := by
    rw [all_eq_true]
    refine ⟨fun hAll rule hUnmet => ?_, fun hAll entry hMem => hAll entry.rule (fails_inForce.mp (h.blocks entry hMem))⟩
    obtain ⟨entry, hMem, hId⟩ := mem_map.mp ((h.acting.2 rule.id).mpr ⟨rule, fails_inForce.mpr hUnmet, rfl⟩)
    -- a stored rule is the only one of its id
    have hSame := KeyedTable.eq_of_key_eq (unmet_stored (fails_inForce.mp (h.blocks entry hMem))) (unmet_stored hUnmet) hId
    exact hSame ▸ hAll entry hMem
  have hReason : ((override.overrideReason.map trim).filter fun text => text ≠ "").isSome = true ↔
      ∃ reason, override.overrideReason = some reason ∧ trim reason ≠ "" := by
    cases override.overrideReason <;> simp
  unfold overrideReason Overrides
  dsimp only
  rw [← hAllowed, ← hReason]
  split
  · rename_i hGranted
    rw [Bool.and_eq_true] at hGranted
    exact ⟨fun hSome => ⟨hGranted.1, hSome, hGranted.2⟩, fun h => h.2.1⟩
  · rename_i hDenied
    exact ⟨nofun, fun h => absurd (Bool.and_eq_true _ _ ▸ ⟨h.1, h.2.2⟩) hDenied⟩

/-- What the engine decides, in terms of the rules that the check leaves unmet. -/
structure Settles (db : Database) (check : GateCheck) (chains : List (List RuleScope)) (override : GateOverride)
    (answer : GateDecision) : Prop where
  acting : ActsOnce answer.acting (Unmet db check chains .required)
  advising : ActsOnce answer.advising (Unmet db check chains .recommendation)
  blocks : answer.blocks = true ↔ (∃ rule, Unmet db check chains .required rule) ∧ ¬Overrides db check chains override
  overrides : answer.overrides = true ↔ (∃ rule, Unmet db check chains .required rule) ∧ Overrides db check chains override

theorem decision_settles (db : Database) (check : GateCheck) (chains : List (List RuleScope)) (override : GateOverride) :
    Settles db check chains override (decision check override (evaluate db check chains)) := by
  have hTally := @tally_evaluate db check chains
  generalize evaluate db check chains = found at hTally ⊢
  have hReason := @overrideReason_isSome db check chains override found hTally
  have hUnmet : ∀ mode, Fails db check (inForce db check chains) mode = Unmet db check chains mode :=
    fun mode => funext fun rule => propext fails_inForce
  have hActing := hUnmet .required ▸ hTally.acting
  have hAdvising := hUnmet .recommendation ▸ hTally.advising
  have hIds : ruleIds (found.acting.map fun entry => ruleWarning entry.rule) =
      found.acting.map fun entry => entry.rule.id := by
    rw [ruleIds, filterMap_map, ← filterMap_eq_map]
    rfl
  rw [← hIds] at hActing
  obtain ⟨observations, warnings, acting⟩ := found
  cases acting with
  | nil =>
    have hNone : ¬∃ rule, Unmet db check chains .required rule := fun ⟨rule, hRule⟩ =>
      not_mem_nil ((hActing.2 rule.id).mpr ⟨rule, hRule, rfl⟩)
    have hQuiet {p : Prop} : (false = true ↔ (∃ rule, Unmet db check chains .required rule) ∧ p) :=
      iff_of_false nofun fun h => hNone h.1
    cases warnings with
    | nil | cons => exact ⟨hActing, hAdvising, hQuiet, hQuiet⟩
  | cons first rest =>
    have hSome : ∃ rule, Unmet db check chains .required rule := by
      obtain ⟨rule, hRule, _⟩ := (hActing.2 first.rule.id).mp mem_cons_self
      exact ⟨rule, hRule⟩
    unfold decision
    rw [if_neg nofun]
    cases hOverride : overrideReason override (first :: rest) with
    | some reason =>
      have hIs := hReason.mp (by rw [hOverride]; rfl)
      exact ⟨hActing, hAdvising, iff_of_false nofun fun h => h.2 hIs, iff_of_true rfl ⟨hSome, hIs⟩⟩
    | none =>
      have hNot : ¬Overrides db check chains override := fun hIs => by
        have hFound := hReason.mpr hIs
        rw [hOverride] at hFound
        cases hFound
      exact ⟨hActing, hAdvising, iff_of_true rfl ⟨hSome, hNot⟩, iff_of_false nofun fun h => hNot h.2⟩

/-- The check bars its batch: its ancestry is cyclic, or some required rule is unmet and
not overridden. -/
def Bars (db : Database) (override : GateOverride) (check : GateCheck) : Prop :=
  Cyclic db (resolveCheck db check) ∨ ∃ chains, scopeChains db (resolveCheck db check) = .ok chains ∧
    (∃ rule, Unmet db (resolveCheck db check) chains .required rule) ∧
      ¬Overrides db (resolveCheck db check) chains override

/-- A check is decided on by the rules along all ancestries of its plans, or fails on a
cyclic one. -/
def Decided (db : Database) (env : Env) (actor : Actor) (override : GateOverride) (check : GateCheck) : Prop :=
  (Cyclic db (resolveCheck db check) ∧ ∃ above, checkObserved db env actor check override = .error (cyclicError above)) ∨
    (¬Cyclic db (resolveCheck db check) ∧ ∃ chains answer observations,
      scopeChains db (resolveCheck db check) = .ok chains ∧ Ascends db (resolveCheck db check) chains ∧
        checkObserved db env actor check override = .ok (answer, observations) ∧
          Settles db (resolveCheck db check) chains override answer)

variable {env : Env} {actor : Actor} {config : Config}

theorem check_decided (db : Database) (env : Env) (actor : Actor) (override : GateOverride) (check : GateCheck) :
    Decided db env actor override check := by
  unfold Decided checkObserved
  dsimp only
  rcases scopeChains_ends db (resolveCheck db check) with ⟨hCyclic, above, hError⟩ | ⟨hNot, chains, hOk, hAscends⟩
  · rw [hError]
    exact .inl ⟨hCyclic, above, rfl⟩
  · rw [hOk]
    exact .inr ⟨hNot, chains, _, _, rfl, hAscends, rfl, decision_settles _ _ chains override⟩

theorem bars_iff : Bars db override check ↔ ∀ answer observations,
    checkObserved db env actor check override = .ok (answer, observations) → answer.blocks = true := by
  rcases check_decided db env actor override check with ⟨hCyclic, above, hError⟩ |
    ⟨hNot, chains, answer, observations, hOk, _, hAnswer, hSettles⟩
  · exact iff_of_true (.inl hCyclic) fun _ _ hIs => by cases hError.symm.trans hIs
  · constructor
    · rintro (hCyclic | ⟨others, hOthers, hUnmet⟩) _ _ hIs
      · exact absurd hCyclic hNot
      · cases hOk.symm.trans hOthers
        cases hAnswer.symm.trans hIs
        exact hSettles.blocks.mpr hUnmet
    · intro hBlocks
      exact .inr ⟨chains, hOk, hSettles.blocks.mp (hBlocks answer observations hAnswer)⟩

theorem consult_passed_iff (codec : TextCodec) (checks : List GateCheck) (trail : Trail) :
    (∃ after, consult codec checkObserved db env actor override trail checks = .ok (.passed after)) ↔
      ∀ check ∈ checks, ¬Bars db override check := by
  induction checks generalizing trail with
  | nil => exact iff_of_true ⟨trail, rfl⟩ fun _ hMem => absurd hMem not_mem_nil
  | cons check rest ih =>
    rw [forall_mem_cons, @bars_iff _ _ _ env actor]
    unfold consult
    cases hAnswer : checkObserved db env actor check override with
    | error e => exact iff_of_false (by rintro ⟨_, ⟨⟩⟩) fun h => h.1 fun _ _ hIs => by cases hIs
    | ok answered =>
      obtain ⟨answer, observations⟩ := answered
      have hOne : (∀ other seen, (Except.ok (answer, observations) : Result _) = .ok (other, seen) →
          other.blocks = true) ↔ answer.blocks = true :=
        ⟨fun h => h _ _ rfl, fun h _ _ hIs => by cases hIs; exact h⟩
      rw [hOne]
      cases answer with
      | blocked => exact iff_of_false (by rintro ⟨_, ⟨⟩⟩) fun h => h.1 rfl
      | _ => exact (ih _).trans (and_iff_right Bool.false_ne_true).symm

/-- The gate refuses a drafted batch, and its command fails with the error of the gate, just
when some check of the batch bars it. -/
def RefusesBarred (config : Config) (env : Env) (caller : Caller) (command : Command) (claimed : Actor) (db : Database) :
    Prop :=
  ∀ batch relations, Handler.draftedBatch config env caller command claimed db = some (batch, relations) → batch ≠ [] →
    ((∃ e after, gated config (env.part 1) (Handler.attributedActor caller command claimed) (gateOverrideOf command) batch
        { db with relations := relations } = (.error e, after) ∧
          Handler.handleWithRunOwner config env caller command claimed db = (.error e, after)) ↔
      ∃ check ∈ deriveGateChecks batch, Bars { db with relations := relations } (gateOverrideOf command) check)

theorem gated_refused_iff (hGate : config.lifecycleGate = some checkObserved) (batch : List Event) :
    (∃ e after, gated config env actor override batch db = (.error e, after)) ↔
      ∃ check ∈ deriveGateChecks batch, Bars db override check := by
  have hPassed := @consult_passed_iff db override env actor config.text (deriveGateChecks batch) Trail.empty
  cases hConsult : consult config.text checkObserved db env actor override Trail.empty (deriveGateChecks batch) with
  | error e =>
    rw [hConsult] at hPassed
    have hBarred : ∃ check ∈ deriveGateChecks batch, Bars db override check := by
      simpa using (not_congr hPassed).mp nofun
    exact iff_of_true ⟨e, db, Handler.gated_error hGate hConsult⟩ hBarred
  | ok verdict =>
    rw [hConsult] at hPassed
    cases verdict with
    | passed trail =>
      have hClear := hPassed.mp ⟨trail, rfl⟩
      refine iff_of_false (fun ⟨e, after, hIs⟩ => ?_) fun ⟨check, hCheck, hBars⟩ => hClear check hCheck hBars
      cases (Handler.gated_passed hGate hConsult).symm.trans hIs
    | refused audit error =>
      have hBarred : ∃ check ∈ deriveGateChecks batch, Bars db override check := by
        simpa using (not_congr hPassed).mp nofun
      obtain ⟨recorded, after, hRecord⟩ :
          ∃ recorded after, GateStage.recordRefusal env actor audit db = (recorded, after) := ⟨_, _, rfl⟩
      have hGated := Handler.gated_refused hGate hConsult hRecord
      cases recorded with
      | error e => exact iff_of_true ⟨e, after, hGated⟩ hBarred
      | ok u => exact iff_of_true ⟨error, after, hGated⟩ hBarred

/-- A rule acts once on a check, however many chains it is reached through, and a batch is
refused just when some required rule is unmet and not overridden, or an ancestry is cyclic. -/
theorem rule_engine_decides (db : Database) (env : Env) :
    (∀ actor override check, Decided db env actor override check) ∧
      ∀ (config : Config) caller command claimed,
        RefusesBarred { config with lifecycleGate := some checkObserved } env caller command claimed db := by
  refine ⟨fun actor override check => check_decided db env actor override check,
    fun config caller command claimed batch relations hDrafted hNonempty => ?_⟩
  rw [← @gated_refused_iff { db with relations := relations } (gateOverrideOf command) (env.part 1)
    (Handler.attributedActor caller command claimed) { config with lifecycleGate := some checkObserved } rfl]
  refine ⟨fun ⟨e, after, hGated, _⟩ => ⟨e, after, hGated⟩, fun ⟨e, after, hGated⟩ => ⟨e, after, hGated, ?_⟩⟩
  obtain ⟨warnings, hHandle⟩ := Handler.handle_drafted hDrafted hNonempty
  rw [hHandle, bind_eq, hGated]

end RuleEngine
end Daruma
