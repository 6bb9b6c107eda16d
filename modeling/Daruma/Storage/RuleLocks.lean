import Daruma.Storage.RuleRepo
import Daruma.Library.Overriding
import Mathlib.Data.List.Perm.Basic

/-! Locked rules along a scope chain: when the rule in force is as strict as every rule
further out that forbids an override. -/
namespace Daruma

open List

def RuleRepo.KeysUnique (rules : Rules) : Prop :=
  ∀ rule ∈ rules, ∀ other ∈ rules, rule.scope = other.scope → rule.ruleKey = other.ruleKey → rule = other

namespace Rule

def strictness (rule : Rule) : Nat := rule.mode.strictness

def isLocked (rule : Rule) : Bool := !rule.overrideAllowed

end Rule

namespace RuleRepo

variable {rules : Rules} {trigger : RuleTrigger} {chosen : List (Nat × Rule)} {rule : Rule} {list : List Rule}
  {key : String} {depth : Nat} {chain : List RuleScope}

theorem KeysUnique.empty : KeysUnique (.empty : Rules) :=
  fun rule hRule => absurd hRule (KeyedTable.not_mem_empty rule)

theorem KeysUnique.upserted {row : Rule} (h : KeysUnique rules) (hFree : keyTaken rules row = false) :
    KeysUnique (rules.upsert row) := by
  have hOther : ∀ other ∈ rules, other.scope = row.scope → other.ruleKey = row.ruleKey → other.id = row.id := by
    intro other hMem hScope hKey
    by_contra hId
    exact absurd hFree (Bool.not_eq_false _ ▸ any_eq_true.mpr ⟨other, hMem, by simp [hScope, hKey, hId]⟩)
  intro left hLeft right hRight hScope hKey
  rcases KeyedTable.mem_upsert.mp hLeft with hIs | ⟨hOldLeft, hLeftId⟩ <;>
    rcases KeyedTable.mem_upsert.mp hRight with hIs' | ⟨hOldRight, hRightId⟩
  · exact hIs.trans hIs'.symm
  · exact absurd (hOther right hOldRight (hIs ▸ hScope.symm) (hIs ▸ hKey.symm)) hRightId
  · exact absurd (hOther left hOldLeft (hIs' ▸ hScope) (hIs' ▸ hKey)) hLeftId
  · exact h left hOldLeft right hOldRight hScope hKey

def standing (chosen : List (Nat × Rule)) (key : String) : Option Rule :=
  (chosen.find? fun entry => entry.2.ruleKey = key).map Prod.snd

structure ChosenAt (depth : Nat) (chosen : List (Nat × Rule)) : Prop where
  distinct : (chosen.map fun entry => entry.2.ruleKey).Nodup
  reached : ∀ entry ∈ chosen, entry.1 < depth

abbrev settleRule (incumbent : Option Rule) (rule : Rule) : Option Rule :=
  Overriding.settle Rule.strictness Rule.isLocked incumbent rule

variable {entries : List (Nat × Rule)}

theorem map_keys (depth : Nat) (rule : Rule) :
    (entries.map fun entry => if entry.2.ruleKey = rule.ruleKey then (depth, rule) else entry).map
      (fun entry => entry.2.ruleKey) = entries.map fun entry => entry.2.ruleKey := by
  rw [map_map]
  refine map_congr_left fun entry _ => ?_
  dsimp only [Function.comp_apply]
  split
  · rename_i hKey
    exact hKey.symm
  · rfl

theorem standing_map (depth : Nat) (rule : Rule) (key : String) :
    standing (entries.map fun entry => if entry.2.ruleKey = rule.ruleKey then (depth, rule) else entry) key =
      if rule.ruleKey = key then (standing entries key).map fun _ => rule else standing entries key := by
  induction entries with
  | nil => exact (ite_self _).symm
  | cons entry rest ih =>
    unfold standing at ih ⊢
    rw [map_cons, find?_cons, find?_cons]
    by_cases hSame : entry.2.ruleKey = rule.ruleKey
    · rw [if_pos hSame, hSame]
      by_cases hKey : rule.ruleKey = key
      · simp [hKey]
      · simpa [hKey] using ih
    · rw [if_neg hSame]
      by_cases hKey : entry.2.ruleKey = key
      · have hOther : rule.ruleKey ≠ key := fun hRule => hSame (hKey.trans hRule.symm)
        simp [hKey, hOther]
      · simpa [hKey] using ih

theorem chooseRule_standing (hIncumbent : ∀ entry ∈ chosen, entry.2.ruleKey = rule.ruleKey → entry.1 < depth)
    (key : String) : standing (chooseRule depth chosen rule) key =
      if rule.ruleKey = key then settleRule (standing chosen key) rule else standing chosen key := by
  unfold chooseRule
  split
  · rename_i chosenDepth incumbent hFound
    have hKey : incumbent.ruleKey = rule.ruleKey := by simpa using find?_some hFound
    have hDepth : ¬depth ≤ chosenDepth := Nat.not_le.mpr (hIncumbent _ (mem_of_find?_eq_some hFound) hKey)
    have hStanding : standing chosen rule.ruleKey = some incumbent := congrArg (Option.map Prod.snd) hFound
    rw [if_neg hDepth]
    split
    · rename_i hDenied
      split
      · rename_i hSame
        rw [← hSame, hStanding]
        exact (if_pos hDenied).symm
      · rfl
    · rename_i hAccepted
      rw [standing_map]
      split
      · rename_i hSame
        rw [← hSame, hStanding]
        exact (if_neg hAccepted).symm
      · rfl
  · rename_i hNone
    unfold standing
    rw [find?_append]
    by_cases hSame : rule.ruleKey = key
    · subst hSame
      rw [if_pos rfl, hNone]
      simp [Overriding.settle]
    · rw [if_neg hSame, find?_singleton, if_neg (by simpa using hSame), Option.or_none]

theorem chooseRule_distinct (h : (chosen.map fun entry => entry.2.ruleKey).Nodup) :
    ((chooseRule depth chosen rule).map fun entry => entry.2.ruleKey).Nodup := by
  unfold chooseRule
  split
  · split
    · exact h
    · split
      · exact h
      · rw [map_keys]
        exact h
  · rename_i hNone
    rw [map_append]
    refine nodup_append.mpr ⟨h, nodup_singleton _, fun left hLeft right hRight hSame => ?_⟩
    obtain ⟨entry, hMem, rfl⟩ := mem_map.mp hLeft
    rw [map_singleton, mem_singleton] at hRight
    exact absurd (hSame.trans hRight) (by simpa using find?_eq_none.mp hNone entry hMem)

theorem mem_chooseRule {entry : Nat × Rule} (h : entry ∈ chooseRule depth chosen rule) :
    entry ∈ chosen ∨ entry = (depth, rule) := by
  unfold chooseRule at h
  split at h
  · split at h
    · exact .inl h
    · split at h
      · exact .inl h
      · obtain ⟨old, hOld, rfl⟩ := mem_map.mp h
        split
        · exact .inr rfl
        · exact .inl hOld
  · exact (mem_append.mp h).imp_right mem_singleton.mp

theorem foldl_chooseRule (hDistinct : (list.map Rule.ruleKey).Nodup)
    (hKeys : (chosen.map fun entry => entry.2.ruleKey).Nodup)
    (hReached : ∀ entry ∈ chosen, entry.1 < depth ∨ (entry.1 = depth ∧ entry.2.ruleKey ∉ list.map Rule.ruleKey)) :
    ChosenAt (depth + 1) (list.foldl (chooseRule depth) chosen) ∧
      ∀ key, standing (list.foldl (chooseRule depth) chosen) key =
        (list.filter fun rule => rule.ruleKey = key).foldl settleRule (standing chosen key) := by
  induction list generalizing chosen with
  | nil =>
    refine ⟨⟨hKeys, fun entry hMem => ?_⟩, fun _ => rfl⟩
    rcases hReached entry hMem with hBefore | ⟨hHere, _⟩ <;> omega
  | cons rule rest ih =>
    obtain ⟨hNew, hRest⟩ := nodup_cons.mp hDistinct
    have hStep := @chooseRule_standing chosen rule depth fun entry hMem hSame =>
      (hReached entry hMem).resolve_right fun hHere => hHere.2 (by simp [hSame])
    obtain ⟨hChosen, hStanding⟩ := ih hRest (chooseRule_distinct hKeys) fun entry hMem => by
      rcases mem_chooseRule hMem with hOld | rfl
      · exact (hReached entry hOld).imp_right fun hHere =>
          ⟨hHere.1, fun hLater => hHere.2 (mem_cons_of_mem _ hLater)⟩
      · exact .inr ⟨rfl, hNew⟩
    refine ⟨hChosen, fun key => ?_⟩
    rw [foldl_cons, hStanding, hStep, filter_cons]
    by_cases hSame : rule.ruleKey = key
    · simp [hSame]
    · simp [hSame]

def keyRules (rules : Rules) (trigger : RuleTrigger) (key : String) (chain : List RuleScope) : List Rule :=
  chain.flatMap fun scope => (enabledRules rules scope trigger).filter fun rule => rule.ruleKey = key

theorem enabledRules_distinct (hUnique : KeysUnique rules) (scope : RuleScope) :
    ((enabledRules rules scope trigger).map Rule.ruleKey).Nodup := by
  refine (nodup_map_iff_inj_on ?_).mpr fun left hLeft right hRight hSame => ?_
  · exact (List.Nodup.of_map _ rules.nodup).filter _
  · simp only [enabledRules, mem_filter, Bool.and_eq_true, decide_eq_true_eq, KeyedTable.mem_rows] at hLeft hRight
    exact hUnique left hLeft.1 right hRight.1 (hLeft.2.1.1.trans hRight.2.1.1.symm) hSame

theorem chosenRules_standing (hUnique : KeysUnique rules) (hChosen : ChosenAt depth chosen) :
    ((chosenRules rules trigger depth chosen chain).map fun entry => entry.2.ruleKey).Nodup ∧
      ∀ key, standing (chosenRules rules trigger depth chosen chain) key =
        (keyRules rules trigger key chain).foldl settleRule (standing chosen key) := by
  induction chain generalizing depth chosen with
  | nil => exact ⟨hChosen.distinct, fun _ => rfl⟩
  | cons scope inner ih =>
    obtain ⟨hNext, hStanding⟩ := foldl_chooseRule (enabledRules_distinct hUnique scope) hChosen.distinct
      fun entry hMem => .inl (hChosen.reached entry hMem)
    obtain ⟨hDistinct, hInner⟩ := ih hNext
    refine ⟨hDistinct, fun key => ?_⟩
    rw [chosenRules, hInner, hStanding, keyRules, keyRules, flatMap_cons, foldl_append]

theorem filter_standing (h : (entries.map fun entry => entry.2.ruleKey).Nodup)
    (key : String) : (entries.map Prod.snd).filter (fun rule => rule.ruleKey = key) = (standing entries key).toList := by
  induction entries with
  | nil => rfl
  | cons entry rest ih =>
    obtain ⟨hNew, hRest⟩ := nodup_cons.mp h
    unfold standing at ih ⊢
    rw [map_cons, filter_cons, find?_cons]
    by_cases hSame : entry.2.ruleKey = key
    · have hNone : (rest.map Prod.snd).filter (fun rule => rule.ruleKey = key) = [] := by
        refine filter_eq_nil_iff.mpr fun rule hMem => ?_
        obtain ⟨other, hOther, rfl⟩ := mem_map.mp hMem
        intro hIs
        exact hNew (mem_map.mpr ⟨other, hOther, (of_decide_eq_true hIs).trans hSame.symm⟩)
      simp [hSame, hNone]
    · simpa [hSame] using ih hRest

theorem effective_of_key (hUnique : KeysUnique rules) (key : String) :
    (effectiveRules rules chain trigger).filter (fun rule => rule.ruleKey = key) =
      ((Overriding.settled Rule.strictness Rule.isLocked (keyRules rules trigger key chain)).filter
        fun rule => rule.mode ≠ .off).toList := by
  obtain ⟨hDistinct, hStanding⟩ := @chosenRules_standing rules trigger [] 0 chain hUnique
    ⟨nodup_nil, fun _ hMem => absurd hMem not_mem_nil⟩
  have hPerm := ((perm_insertionSort (fun left right : Rule => left.ruleKey ≤ right.ruleKey)
    (((chosenRules rules trigger 0 [] chain).map Prod.snd).filter fun rule => rule.mode ≠ .off)).filter
      fun rule => rule.ruleKey = key)
  have hSettled : Overriding.settled Rule.strictness Rule.isLocked (keyRules rules trigger key chain) =
      standing (chosenRules rules trigger 0 [] chain) key := (hStanding key).symm
  rw [filter_comm, filter_standing hDistinct key, ← hSettled] at hPerm
  unfold effectiveRules orderBy
  cases hIs : Overriding.settled Rule.strictness Rule.isLocked (keyRules rules trigger key chain) with
  | none =>
    rw [hIs] at hPerm
    exact perm_nil.mp hPerm
  | some rule =>
    rw [hIs] at hPerm
    by_cases hOff : rule.mode = .off
    · simp only [Option.toList_some, filter_cons, hOff] at hPerm
      simpa [Option.filter, hOff] using hPerm
    · simp only [Option.toList_some, filter_cons, hOff] at hPerm
      simpa [Option.filter, hOff] using hPerm

def LocksHold (rules : Rules) (chain : List RuleScope) (trigger : RuleTrigger) (key : String) : Prop :=
  ∀ scope ∈ chain, ∀ lock ∈ enabledRules rules scope trigger, lock.ruleKey = key → lock.overrideAllowed = false →
    lock.mode ≠ .off →
      ∃ rule, (effectiveRules rules chain trigger).filter (fun rule => rule.ruleKey = key) = [rule] ∧
        lock.mode.strictness ≤ rule.mode.strictness

/-- The innermost rule of the key that no lock overrules is weaker than a lock further out. -/
def LocksWeakened (rules : Rules) (chain : List RuleScope) (trigger : RuleTrigger) (key : String) : Prop :=
  Overriding.Weakened Rule.strictness Rule.isLocked (keyRules rules trigger key chain)

theorem mem_keyRules {lock : Rule} : lock ∈ keyRules rules trigger key chain ↔
    ∃ scope ∈ chain, lock ∈ enabledRules rules scope trigger ∧ lock.ruleKey = key := by
  simp [keyRules, mem_flatMap]

theorem locksHold_settled (hUnique : KeysUnique rules) {incumbent : Rule}
    (h : Overriding.settled Rule.strictness Rule.isLocked (keyRules rules trigger key chain) = some incumbent) :
    LocksHold rules chain trigger key ↔ ∀ lock ∈ keyRules rules trigger key chain, lock.isLocked = true →
      lock.strictness ≤ incumbent.strictness := by
  have hEffective := @effective_of_key rules trigger chain hUnique key
  rw [h] at hEffective
  constructor
  · intro hHold lock hMem hLocked
    obtain ⟨scope, hScope, hEnabled, hKey⟩ := mem_keyRules.mp hMem
    by_cases hOff : lock.mode = .off
    · unfold Rule.strictness
      rw [hOff]
      exact Nat.zero_le _
    · obtain ⟨rule, hOnly, hStrict⟩ := hHold scope hScope lock hEnabled hKey (by simpa [Rule.isLocked] using hLocked) hOff
      have hSame : rule ∈ (Option.filter (fun rule => decide (rule.mode ≠ .off)) (some incumbent)).toList := by
        rw [← hEffective, hOnly]
        exact mem_singleton_self rule
      have hIncumbent : rule = incumbent := by
        rw [Option.mem_toList] at hSame
        exact (Option.some.inj (Option.filter_eq_some_iff.mp hSame).1).symm
      exact hIncumbent ▸ hStrict
  · intro hBound scope hScope lock hEnabled hKey hForbids hMode
    have hStrict := hBound lock (mem_keyRules.mpr ⟨scope, hScope, hEnabled, hKey⟩) (by simp [Rule.isLocked, hForbids])
    have hOn : incumbent.mode ≠ .off := by
      intro hOff
      unfold Rule.strictness at hStrict
      rw [hOff] at hStrict
      cases hLock : lock.mode with
      | off => exact hMode hLock
      | _ =>
        rw [hLock] at hStrict
        cases hStrict
    refine ⟨incumbent, ?_, hStrict⟩
    rw [hEffective]
    simp [Option.filter, hOn]

/-- Locks hold along a chain unless they are weakened in it. -/
theorem locks_hold_unless_weakened (hUnique : KeysUnique rules) :
    LocksHold rules chain trigger key ↔ ¬LocksWeakened rules chain trigger key := by
  cases hSettled : Overriding.settled Rule.strictness Rule.isLocked (keyRules rules trigger key chain) with
  | some incumbent => exact (locksHold_settled hUnique hSettled).trans (Overriding.locks_hold_iff hSettled)
  | none =>
    have hNil := Overriding.settled_eq_none.mp hSettled
    refine ⟨?_, fun _ scope hScope lock hEnabled hKey => ?_⟩
    · rintro _ ⟨outer, item, inner, hSplit, _⟩
      cases outer <;> cases hNil.symm.trans hSplit
    · have hMem : lock ∈ keyRules rules trigger key chain := mem_keyRules.mpr ⟨scope, hScope, hEnabled, hKey⟩
      rw [hNil] at hMem
      exact absurd hMem not_mem_nil

private def noteRule (id : Nat) (scope : RuleScope) (mode : RuleMode) (overrideAllowed : Bool) : Rule :=
  ⟨⟨id⟩, "completion-note", "note", scope, .taskBeforeComplete, none, .completionNote ["note"], mode, "write a note",
    overrideAllowed, true, 0, 0⟩

private def tenantNote : Rule := noteRule 1 .tenant .required false

/-- It is replaced by a rule as strict that may be overridden, and this one is turned off. -/
private def replacedLock : Rules :=
  ((KeyedTable.empty.upsert tenantNote).upsert (noteRule 2 (.project ⟨1⟩) .required true)).upsert
    (noteRule 3 (.plan ⟨2⟩) .off true)

private def planChain : List RuleScope := [.tenant, .project ⟨1⟩, .plan ⟨2⟩]

theorem replaced_lock_weakened : ¬LocksHold replacedLock planChain .taskBeforeComplete "completion-note" := by
  intro hHold
  obtain ⟨rule, hOnly, _⟩ := hHold .tenant (by decide) tenantNote (by decide) rfl rfl (by decide)
  have hNone : effectiveRules replacedLock planChain .taskBeforeComplete = [] := by decide
  rw [hNone] at hOnly
  cases hOnly

/-- The same rules without the one in between. -/
private def keptLock : Rules := (KeyedTable.empty.upsert tenantNote).upsert (noteRule 3 (.plan ⟨2⟩) .off true)

theorem locks_hold_unless_weakened_kept : effectiveRules keptLock planChain .taskBeforeComplete = [tenantNote] ∧
      (LocksHold keptLock planChain .taskBeforeComplete "completion-note" ↔
        ¬LocksWeakened keptLock planChain .taskBeforeComplete "completion-note") := by
  refine ⟨by decide, locks_hold_unless_weakened ?_⟩
  have hFirst : KeysUnique (KeyedTable.empty.upsert tenantNote) := KeysUnique.empty.upserted (by decide)
  exact hFirst.upserted (by decide)

end RuleRepo
end Daruma
