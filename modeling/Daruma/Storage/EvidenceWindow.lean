import Daruma.Library.Sequences
import Daruma.Storage.EvidenceRepo

/-! What live evidence has to be for a requirement, and how much of it is looked at. -/
namespace Daruma

open EvidenceRepo List

structure EvidenceDemand where
  chain : List RuleScope
  kind : EvidenceKind
  target : Option String
  requiredFields : List String
  minVersion : Option String

/-- The rank from which the scopes of a chain are in reach. No scope has that of its
innermost one. -/
def EvidenceReach.ceiling : EvidenceReach → Nat
  | .tenant => 0
  | .project => 1
  | .plan => 2
  | .selfOnly => 4

def InReach (chain : List RuleScope) (reach : EvidenceReach) (scope : RuleScope) : Prop :=
  ∃ outer first inner, chain = outer ++ first :: inner ∧ scope ∈ first :: inner ∧
    (∀ other ∈ outer, scopeRank other < reach.ceiling) ∧ (reach.ceiling ≤ scopeRank first ∨ inner = [])

namespace EvidenceDemand

def check (db : Database) (demand : EvidenceDemand) : EvidenceCheck :=
  hasLiveEvidence db demand.chain demand.kind demand.target demand.requiredFields demand.minVersion

def latestVersion (db : Database) (demand : EvidenceDemand) : Option Nat :=
  if demand.minVersion = some "latest" then demand.target.bind (currentDocumentVersion db) else none

/-- The evidence is about the target, or about none unless a version of the target
has to be read. -/
def matchesTarget (db : Database) (demand : EvidenceDemand) (evidence : Evidence) : Bool :=
  demand.target.isNone || evidence.target = demand.target ||
    (evidence.target.isNone && (demand.latestVersion db).isNone)

def candidate (db : Database) (demand : EvidenceDemand) (scope : RuleScope) (evidence : Evidence) : Bool :=
  evidence.scope = scope && evidence.kind = demand.kind && evidence.supersededBy.isNone && demand.matchesTarget db evidence

def MeetsVersion (db : Database) (demand : EvidenceDemand) (evidence : Evidence) : Prop :=
  match demand.minVersion with
  | none => True
  | some version =>
    if version = "latest" then
      ∀ current, demand.latestVersion db = some current → evidence.docVersion.bind parseVersion = some current
    else ∃ minimum actual, parseVersion version = some minimum ∧
      evidence.docVersion.bind parseVersion = some actual ∧ minimum ≤ actual

structure Qualifies (db : Database) (demand : EvidenceDemand) (evidence : Evidence) : Prop where
  reach : InReach demand.chain demand.kind.reach evidence.scope
  candidate : demand.candidate db evidence.scope evidence = true
  fields : ∀ field ∈ demand.requiredFields, fieldMissing evidence field = false
  version : demand.MeetsVersion db evidence

/-- One piece of evidence was recorded after another. -/
def newer (other evidence : Evidence) : Bool :=
  evidence.recordedAt < other.recordedAt || (evidence.recordedAt = other.recordedAt && evidence.id.uuid < other.id.uuid)

/-- How many newer candidates there are at the scope of a piece of evidence. -/
def newerCandidates (db : Database) (demand : EvidenceDemand) (evidence : Evidence) : Nat :=
  db.evidence.rows.countP fun other => demand.candidate db evidence.scope other && newer other evidence

end EvidenceDemand

namespace EvidenceRepo

variable {db : Database} {chain : List RuleScope} {scope : RuleScope} {evidence : Evidence}

theorem exists_cut (ceiling : Nat) (hChain : chain ≠ []) : ∃ outer first inner, chain = outer ++ first :: inner ∧
    (∀ other ∈ outer, scopeRank other < ceiling) ∧ (ceiling ≤ scopeRank first ∨ inner = []) := by
  induction chain with
  | nil => exact absurd rfl hChain
  | cons head rest ih =>
    by_cases hHead : ceiling ≤ scopeRank head
    · exact ⟨[], head, rest, rfl, fun _ hOther => absurd hOther not_mem_nil, .inl hHead⟩
    · cases rest with
      | nil => exact ⟨[], head, [], rfl, fun _ hOther => absurd hOther not_mem_nil, .inr rfl⟩
      | cons next rest =>
        obtain ⟨outer, first, inner, hSplit, hOuter, hFirst⟩ := ih (cons_ne_nil next rest)
        exact ⟨head :: outer, first, inner, by rw [hSplit]; rfl,
          forall_mem_cons.mpr ⟨Nat.lt_of_not_le hHead, hOuter⟩, hFirst⟩

variable {outer : List RuleScope} {reach : EvidenceReach} {rule : VersionRule} {other : Evidence}

theorem findIdx?_of_below {ceiling : Nat} (hOuter : ∀ other ∈ outer, scopeRank other < ceiling)
    (inner : List RuleScope) : (outer ++ inner).findIdx? (fun scope => ceiling ≤ scopeRank scope) =
      (inner.findIdx? fun scope => ceiling ≤ scopeRank scope).map (· + outer.length) := by
  have hNone : outer.findIdx? (fun scope => decide (ceiling ≤ scopeRank scope)) = none :=
    findIdx?_eq_none_iff.mpr fun other hOther => by simpa using hOuter other hOther
  rw [findIdx?_append, hNone, Option.none_or]

theorem drop_innermost {first : RuleScope} : (outer ++ [first]).drop ((outer ++ [first]).length - 1) = [first] := by
  rw [length_append, length_singleton, Nat.add_sub_cancel, drop_left]

theorem drop_of_cut {ceiling : Nat} {inner : List RuleScope} {first : RuleScope}
    (hOuter : ∀ other ∈ outer, scopeRank other < ceiling) (hFirst : ceiling ≤ scopeRank first ∨ inner = []) :
    (match (outer ++ first :: inner).findIdx? fun scope => ceiling ≤ scopeRank scope with
      | some cut => (outer ++ first :: inner).drop cut
      | none => (outer ++ first :: inner).drop ((outer ++ first :: inner).length - 1)) = first :: inner := by
  rw [findIdx?_of_below hOuter, findIdx?_cons]
  by_cases hRank : ceiling ≤ scopeRank first
  · rw [if_pos (decide_eq_true hRank)]
    dsimp only [Option.map_some]
    rw [Nat.zero_add, drop_left]
  · obtain rfl := hFirst.resolve_left hRank
    rw [if_neg (by simpa using hRank)]
    exact drop_innermost

theorem reachable_of_cut {inner : List RuleScope} {first : RuleScope}
    (hOuter : ∀ other ∈ outer, scopeRank other < reach.ceiling) (hFirst : reach.ceiling ≤ scopeRank first ∨ inner = []) :
    reachable (outer ++ first :: inner) reach = first :: inner := by
  cases reach with
  | tenant | project | plan => exact drop_of_cut hOuter hFirst
  | selfOnly =>
    have hBelow : scopeRank first < 4 := by cases first <;> simp [scopeRank]
    obtain rfl := hFirst.resolve_left (Nat.not_le.mpr hBelow)
    exact drop_innermost

theorem mem_reachable : scope ∈ reachable chain reach ↔ InReach chain reach scope := by
  constructor
  · intro hIn
    have hChain : chain ≠ [] := by
      rintro rfl
      cases reach <;> cases hIn
    obtain ⟨outer, first, inner, rfl, hOuter, hFirst⟩ := exists_cut reach.ceiling hChain
    rw [reachable_of_cut hOuter hFirst] at hIn
    exact ⟨outer, first, inner, rfl, hIn, hOuter, hFirst⟩
  · rintro ⟨outer, first, inner, rfl, hIn, hOuter, hFirst⟩
    rw [reachable_of_cut hOuter hFirst]
    exact hIn

theorem judge_satisfied {reject : Evidence → Option String} {list : List Evidence} :
    (judge reject list).satisfied = true ↔ ∃ evidence ∈ list, reject evidence = none := by
  induction list with
  | nil => simp [judge]
  | cons evidence rest ih =>
    unfold judge
    cases hReject : reject evidence with
    | none => simp [hReject]
    | some reason =>
      dsimp only
      rw [exists_mem_cons_iff, hReject, ← ih]
      cases hLater : (judge reject rest).satisfied with
      | true => simp [hLater]
      | false => simp

theorem judgeScopes_satisfied {check : RuleScope → EvidenceCheck} {scopes : List RuleScope} :
    (judgeScopes check scopes).satisfied = true ↔ ∃ scope ∈ scopes, (check scope).satisfied = true := by
  induction scopes with
  | nil => simp [judgeScopes]
  | cons scope inner ih =>
    unfold judgeScopes
    dsimp only
    rw [exists_mem_cons_iff, ← ih]
    cases hFound : (check scope).satisfied with
    | true => simp [hFound]
    | false =>
      cases hLater : (judgeScopes check inner).satisfied with
      | true => simp [hLater]
      | false => simp

def Accepts (evidence : Evidence) : VersionRule → Prop
  | .any => True
  | .atLeast minimum => ∃ actual, evidence.docVersion.bind parseVersion = some actual ∧ minimum ≤ actual
  | .latest current => evidence.docVersion.bind parseVersion = some current

theorem rejection_eq_none {requiredFields : List String} : rejection requiredFields rule evidence = none ↔
      (∀ field ∈ requiredFields, fieldMissing evidence field = false) ∧ Accepts evidence rule := by
  unfold rejection
  cases hFields : requiredFields.find? (fieldMissing evidence) with
  | some field =>
    have hMissing := find?_some hFields
    refine iff_of_false nofun fun h => ?_
    rw [h.1 field (mem_of_find?_eq_some hFields)] at hMissing
    cases hMissing
  | none =>
    have hAll : ∀ field ∈ requiredFields, fieldMissing evidence field = false := fun field hField =>
      Bool.eq_false_iff.mpr (find?_eq_none.mp hFields field hField)
    rw [and_iff_right hAll]
    dsimp only
    cases rule with
    | any => simp [Accepts]
    | atLeast minimum =>
      unfold Accepts
      cases evidence.docVersion.bind parseVersion with
      | none => simp
      | some actual =>
        by_cases hOld : actual < minimum
        · simp [hOld]
        · simp [hOld, Nat.le_of_not_lt hOld]
    | latest current =>
      unfold Accepts
      by_cases hCurrent : evidence.docVersion.bind parseVersion = some current
      · simp [hCurrent]
      · simp [hCurrent]

/-- The order in which candidates are looked at. -/
def newestFirst (evidence other : Evidence) : Prop :=
  other.recordedAt < evidence.recordedAt ∨
    (other.recordedAt = evidence.recordedAt ∧ other.id.uuid ≤ evidence.id.uuid)

instance : DecidableRel newestFirst := fun evidence other => inferInstanceAs (Decidable (_ ∨ _ ∧ _))

instance : Std.Total newestFirst where
  total evidence other := by
    have hTotal : ∀ (a b : Int) (m n : Nat), (b < a ∨ b = a ∧ n ≤ m) ∨ (a < b ∨ a = b ∧ m ≤ n) := by omega
    exact hTotal evidence.recordedAt other.recordedAt evidence.id.uuid other.id.uuid

instance : IsTrans Evidence newestFirst where
  trans first second third := by
    have hTrans : ∀ (a b c : Int) (l m n : Nat), (b < a ∨ b = a ∧ m ≤ l) → (c < b ∨ c = b ∧ n ≤ m) →
        c < a ∨ c = a ∧ n ≤ l := by omega
    exact hTrans first.recordedAt second.recordedAt third.recordedAt first.id.uuid second.id.uuid third.id.uuid

theorem newestFirst_antisymm (hEvidence : evidence ∈ db.evidence) (hOther : other ∈ db.evidence)
    (h : newestFirst evidence other) (h' : newestFirst other evidence) : evidence = other := by
  have hAnti : ∀ (a b : Int) (m n : Nat), (b < a ∨ b = a ∧ n ≤ m) → (a < b ∨ a = b ∧ m ≤ n) → m = n := by omega
  have hSame := hAnti evidence.recordedAt other.recordedAt evidence.id.uuid other.id.uuid h h'
  exact KeyedTable.eq_of_key_eq hEvidence hOther (congrArg Id.mk hSame)

theorem not_newestFirst : (!decide (newestFirst evidence other)) = EvidenceDemand.newer other evidence := by
  have hNot : ∀ (a b : Int) (m n : Nat), ¬(b < a ∨ b = a ∧ n ≤ m) ↔ a < b ∨ a = b ∧ m < n := by omega
  rw [Bool.eq_iff_iff]
  unfold EvidenceDemand.newer
  simp only [Bool.not_eq_true', decide_eq_false_iff_not, Bool.or_eq_true, Bool.and_eq_true, decide_eq_true_eq]
  exact hNot evidence.recordedAt other.recordedAt evidence.id.uuid other.id.uuid

def names (target : Option String) (rule : VersionRule) (evidence : Evidence) : Bool :=
  match target, rule with
  | some t, .latest _ => evidence.target = some t
  | some t, _ => evidence.target = some t || evidence.target = none
  | none, _ => true

theorem mem_candidates {kind : EvidenceKind} {target : Option String} {named : Evidence → Bool}
    (hNamed : ∀ evidence, named evidence = names target rule evidence) :
    evidence ∈ candidates db scope kind target rule ↔ evidence ∈ db.evidence ∧
      (evidence.scope = scope && evidence.kind = kind && evidence.supersededBy.isNone && named evidence) = true ∧
      db.evidence.rows.countP (fun other => (other.scope = scope && other.kind = kind && other.supersededBy.isNone &&
        named other) && EvidenceDemand.newer other evidence) < 20 := by
  have hLive : candidates db scope kind target rule = ((db.evidence.rows.filter fun evidence =>
      evidence.scope = scope && evidence.kind = kind && evidence.supersededBy.isNone && named evidence).insertionSort
        newestFirst).take 20 := by
    have hSame : (fun evidence : Evidence => evidence.scope = scope && evidence.kind = kind &&
          evidence.supersededBy.isNone && named evidence) =
        fun evidence => evidence.scope = scope && evidence.kind = kind && evidence.supersededBy = none &&
          names target rule evidence := by
      funext evidence
      rw [hNamed]
      cases evidence.supersededBy <;> rfl
    rw [hSame]
    rfl
  rw [hLive, Window.mem_take_insertionSort, mem_filter, and_assoc]
  · unfold Window.ahead
    rw [countP_filter]
    refine and_congr_right fun _ => and_congr_right fun _ => ?_
    simp only [not_newestFirst, Bool.and_comm (EvidenceDemand.newer _ _)]
  · intro row hRow other hOther
    exact newestFirst_antisymm (mem_filter.mp hRow).1 (mem_filter.mp hOther).1
  · exact (List.Nodup.of_map _ db.evidence.nodup).filter _

end EvidenceRepo

namespace EvidenceDemand

open EvidenceRepo

variable {db : Database} {demand : EvidenceDemand} {evidence : Evidence}

/-- How the versions of candidates are judged, or why none can be. -/
def rule (db : Database) (demand : EvidenceDemand) : Except String VersionRule :=
  match demand.minVersion with
  | none => .ok .any
  | some version =>
    if version = "latest" then
      match demand.target.bind (currentDocumentVersion db) with
      | some current => .ok (.latest current)
      | none => .ok .any
    else match parseVersion version with
      | some minimum => .ok (.atLeast minimum)
      | none => .error
          s!"rule min_version `{version}` is invalid; expected an integer with optional v/V prefix"

/-- What is found of a requirement whose rule is known. -/
def judged (db : Database) (demand : EvidenceDemand) (rule : VersionRule) : EvidenceCheck :=
  let check := judgeScopes (fun scope => judge (rejection demand.requiredFields rule)
    (EvidenceRepo.candidates db scope demand.kind demand.target rule)) (reachable demand.chain demand.kind.reach)
  if check.satisfied then check
  else match check.reason, rule, demand.target with
    | none, .latest current, some docRef => ⟨false, some
        s!"requires a document_read_ack targeting `{docRef}` with doc_version {current} (current document version, min_version=latest)"⟩
    | reason, _, _ => ⟨false, reason⟩

def candidates (db : Database) (demand : EvidenceDemand) (scope : RuleScope) : Nat :=
  db.evidence.rows.countP (demand.candidate db scope)

variable {reason : String} {rule : VersionRule}

theorem check_eq : demand.check db = match demand.rule db with
    | .error reason => ⟨false, some reason⟩
    | .ok rule => demand.judged db rule := rfl

theorem check_error (h : demand.rule db = .error reason) : (demand.check db).satisfied = false := by
  rw [check_eq, h]

theorem check_ok (h : demand.rule db = .ok rule) : (demand.check db).satisfied = true ↔
    ∃ scope ∈ reachable demand.chain demand.kind.reach, ∃ evidence ∈ EvidenceRepo.candidates db scope demand.kind
      demand.target rule, rejection demand.requiredFields rule evidence = none := by
  have hJudged : (demand.judged db rule).satisfied = (judgeScopes (fun scope => judge (rejection demand.requiredFields rule)
      (EvidenceRepo.candidates db scope demand.kind demand.target rule)) (reachable demand.chain demand.kind.reach)).satisfied := by
    unfold judged
    dsimp only
    split
    · rfl
    · rename_i hUnsatisfied
      rw [Bool.not_eq_true] at hUnsatisfied
      rw [hUnsatisfied]
      split
      · rfl
      · rfl
  rw [check_eq, h]
  dsimp only
  rw [hJudged, judgeScopes_satisfied]
  exact exists_congr fun scope => and_congr_right fun _ => judge_satisfied

theorem rule_ok (h : demand.rule db = .ok rule) (evidence : Evidence) :
    demand.matchesTarget db evidence = names demand.target rule evidence ∧
      (Accepts evidence rule ↔ demand.MeetsVersion db evidence) := by
  obtain ⟨chain, kind, target, requiredFields, minVersion⟩ := demand
  have hNamed : ∀ target : Option String, (target.isNone || decide (evidence.target = target) ||
      (evidence.target.isNone && true)) = names target .any evidence := by
    intro target
    cases target with
    | none => rfl
    | some target =>
      rw [Bool.eq_iff_iff]
      simp [names]
  unfold EvidenceDemand.rule at h
  unfold matchesTarget MeetsVersion latestVersion
  dsimp only at h ⊢
  cases minVersion with
  | none =>
    cases h
    exact ⟨hNamed target, Iff.rfl⟩
  | some version =>
    dsimp only at h ⊢
    by_cases hLatest : version = "latest"
    · rw [if_pos hLatest] at h ⊢
      rw [if_pos (congrArg some hLatest)]
      cases hCurrent : target.bind (currentDocumentVersion db) with
      | none =>
        rw [hCurrent] at h
        cases h
        exact ⟨hNamed target, iff_of_true trivial fun _ hIs => nomatch hIs⟩
      | some current =>
        rw [hCurrent] at h
        cases h
        refine ⟨?_, fun hAccepted _ hIs => Option.some.inj hIs ▸ hAccepted, fun hMeets => hMeets current rfl⟩
        cases target with
        | none => cases hCurrent
        | some target => simp [names]
    · rw [if_neg hLatest] at h ⊢
      rw [if_neg fun hIs => hLatest (Option.some.inj hIs)]
      cases hVersion : parseVersion version with
      | none =>
        rw [hVersion] at h
        cases h
      | some minimum =>
        rw [hVersion] at h
        cases h
        refine ⟨?_, ?_⟩
        · exact (hNamed target).trans (by cases target <;> rfl)
        · simp [Accepts]

theorem rule_error (h : demand.rule db = .error reason) (evidence : Evidence) : ¬demand.MeetsVersion db evidence := by
  unfold EvidenceDemand.rule at h
  unfold MeetsVersion
  cases hMinimum : demand.minVersion with
  | none =>
    rw [hMinimum] at h
    cases h
  | some version =>
    rw [hMinimum] at h
    dsimp only at h ⊢
    by_cases hLatest : version = "latest"
    · rw [if_pos hLatest] at h
      cases hCurrent : demand.target.bind (currentDocumentVersion db) with
      | none =>
        rw [hCurrent] at h
        cases h
      | some current =>
        rw [hCurrent] at h
        cases h
    · rw [if_neg hLatest] at h ⊢
      rintro ⟨minimum, actual, hVersion, _⟩
      rw [hVersion] at h
      cases h

/-- A requirement is satisfied by what qualifies for it and is among the twenty newest
candidates of its scope. -/
theorem check_iff : (demand.check db).satisfied = true ↔
    ∃ evidence ∈ db.evidence, demand.Qualifies db evidence ∧ demand.newerCandidates db evidence < 20 := by
  cases hRule : demand.rule db with
  | error reason =>
    rw [check_error hRule]
    exact iff_of_false nofun fun ⟨evidence, _, hQualifies, _⟩ => rule_error hRule evidence hQualifies.version
  | ok rule =>
    have hNamed := fun evidence => (rule_ok hRule evidence).1
    have hAccepts := fun evidence => (rule_ok hRule evidence).2
    rw [check_ok hRule]
    constructor
    · rintro ⟨scope, hScope, evidence, hCandidate, hAccepted⟩
      obtain ⟨hMem, hIs, hNewer⟩ := (mem_candidates hNamed).mp hCandidate
      obtain ⟨hFields, hVersion⟩ := rejection_eq_none.mp hAccepted
      have hAt : evidence.scope = scope := by
        simp only [Bool.and_eq_true, decide_eq_true_eq] at hIs
        exact hIs.1.1.1
      subst hAt
      exact ⟨evidence, hMem, ⟨mem_reachable.mp hScope, hIs, hFields, (hAccepts evidence).mp hVersion⟩, hNewer⟩
    · rintro ⟨evidence, hMem, ⟨hReach, hIs, hFields, hVersion⟩, hNewer⟩
      exact ⟨evidence.scope, mem_reachable.mpr hReach, evidence, (mem_candidates hNamed).mpr ⟨hMem, hIs, hNewer⟩,
        rejection_eq_none.mpr ⟨hFields, (hAccepts evidence).mpr hVersion⟩⟩

theorem newerCandidates_lt (demand : EvidenceDemand) (hMem : evidence ∈ db.evidence)
    (hCandidate : demand.candidate db evidence.scope evidence = true) :
    demand.newerCandidates db evidence < demand.candidates db evidence.scope := by
  have hSplit := countP_eq_countP_filter_add db.evidence.rows (demand.candidate db evidence.scope)
    fun other => newer other evidence
  have hOwn : 0 < (db.evidence.rows.filter fun other => !newer other evidence).countP (demand.candidate db evidence.scope) :=
    countP_pos_iff.mpr ⟨evidence, mem_filter.mpr ⟨hMem, by simp [newer]⟩, hCandidate⟩
  rw [countP_filter] at hSplit
  unfold candidates newerCandidates
  omega

section

variable {envelope : EventEnvelope} {recorded : Evidence} (hRecorded : envelope.payload = .evidence (.evidenceRecorded recorded))

include hRecorded

theorem rows_recorded : (applyEvent db envelope).evidence = db.evidence ∨
    (applyEvent db envelope).evidence.rows = db.evidence.rows ++ [recorded] := by
  unfold EvidenceRepo.applyEvent
  rw [hRecorded]
  dsimp only
  split
  · exact .inl rfl
  · rename_i hNew
    have hFree : db.evidence.find? recorded.id = none := by simpa [KeyedTable.contains] using hNew
    right
    dsimp only
    rw [KeyedTable.upsert, dif_pos hFree]
    rfl

theorem mem_recorded (hMem : evidence ∈ db.evidence) : evidence ∈ (applyEvent db envelope).evidence := by
  rcases rows_recorded hRecorded with hRows | hRows
  · rw [hRows]
    exact hMem
  · exact KeyedTable.mem_rows.mp (hRows ▸ mem_append_left _ hMem)

theorem qualifies_recorded (h : demand.Qualifies db evidence) : demand.Qualifies (applyEvent db envelope) evidence := by
  obtain ⟨evidences, hFrame⟩ := EvidenceRepo.applyEvent_frame db envelope
  rw [hFrame]
  exact ⟨h.reach, h.candidate, h.fields, h.version⟩

theorem newerCandidates_recorded : demand.newerCandidates (applyEvent db envelope) evidence ≤
    demand.newerCandidates db evidence +
      if demand.candidate db evidence.scope recorded && newer recorded evidence then 1 else 0 := by
  have hSame : ∀ scope, demand.candidate (applyEvent db envelope) scope = demand.candidate db scope := by
    intro scope
    obtain ⟨evidences, hFrame⟩ := EvidenceRepo.applyEvent_frame db envelope
    rw [hFrame]
    rfl
  unfold newerCandidates
  simp only [hSame]
  rcases rows_recorded hRecorded with hRows | hRows
  · rw [hRows]
    exact Nat.le_add_right _ _
  · rw [hRows, countP_append, countP_singleton]

theorem check_recorded (hRoom : demand.candidate db recorded.scope recorded = true → demand.candidates db recorded.scope < 20)
    (h : (demand.check db).satisfied = true) : (demand.check (applyEvent db envelope)).satisfied = true := by
  obtain ⟨evidence, hMem, hQualifies, hFew⟩ := check_iff.mp h
  refine check_iff.mpr ⟨evidence, mem_recorded hRecorded hMem, qualifies_recorded hRecorded hQualifies, ?_⟩
  refine Nat.lt_of_le_of_lt (newerCandidates_recorded hRecorded) ?_
  split
  · rename_i hNewer
    have hCandidate := (Bool.and_eq_true_iff.mp hNewer).1
    have hScope : recorded.scope = evidence.scope := by
      simp only [candidate, Bool.and_eq_true, decide_eq_true_eq] at hCandidate
      exact hCandidate.1.1.1
    have hCount := hRoom (hScope ▸ hCandidate)
    rw [hScope] at hCount
    have hLess := demand.newerCandidates_lt hMem hQualifies.candidate
    omega
  · exact hFew

end

/-- The gate is satisfied exactly by what qualifies among the twenty newest candidates
of a scope, and recording evidence keeps it so while there is room at the scope. -/
theorem evidence_gate (db : Database) (demand : EvidenceDemand) : ((demand.check db).satisfied = true ↔
      ∃ evidence ∈ db.evidence, demand.Qualifies db evidence ∧ demand.newerCandidates db evidence < 20) ∧
    ∀ envelope recorded, envelope.payload = .evidence (.evidenceRecorded recorded) →
      (demand.candidate db recorded.scope recorded = true → demand.candidates db recorded.scope < 20) →
      (demand.check db).satisfied = true → (demand.check (applyEvent db envelope)).satisfied = true :=
  ⟨check_iff, fun _ _ hRecorded hRoom h => check_recorded hRecorded hRoom h⟩

private def reading (version : String) (n : Nat) : Evidence :=
  ⟨⟨n⟩, .documentReadAck, .tenant, none, some version, .fromActor .anyUser, none, "read", .null, none, none, none, none, none, none, n, none⟩

private def reads (version : String) (n : Nat) : EventEnvelope :=
  EventEnvelope.new ⟨n⟩ n .anyUser (.evidence (.evidenceRecorded (reading version n)))

/-- The second version was read, and then the first one some times. -/
private def read (times : Nat) : Database :=
  (List.range times).foldl (fun db n => applyEvent db (reads "1" (n + 1))) (applyEvent Database.empty (reads "2" 0))

private def secondVersion : EvidenceDemand := ⟨[.tenant, .task ⟨1⟩], .documentReadAck, none, [], some "2"⟩

theorem evidence_gate_read : (secondVersion.check (applyEvent (read 3) (reads "1" 7))).satisfied = true :=
  (evidence_gate (read 3) secondVersion).2 (reads "1" 7) (reading "1" 7) rfl (by decide +kernel) (by decide +kernel)

private theorem mem_read (times : Nat) : reading "2" 0 ∈ (read times).evidence := by
  induction times with
  | zero => exact KeyedTable.mem_upsert.mpr (.inl rfl)
  | succ times ih =>
    have hStep : read (times + 1) = applyEvent (read times) (reads "1" (times + 1)) := by
      unfold read
      rw [range_succ, foldl_append]
      rfl
    rw [hStep]
    exact @mem_recorded (read times) _ _ (reading "1" (times + 1)) rfl ih

/-- The twentieth reading of the first version hides that of the second one. -/
theorem evidence_crowded_out : (secondVersion.check (read 19)).satisfied = true ∧
      (∃ evidence ∈ (read 20).evidence, secondVersion.Qualifies (read 20) evidence) ∧
      (secondVersion.check (read 20)).satisfied = false := by
  refine ⟨by decide +kernel, ⟨reading "2" 0, mem_read 20, ⟨[], .tenant, [.task ⟨1⟩], rfl, mem_cons_self, ?_, .inl ?_⟩,
    by decide +kernel, ?_, 2, 2, by decide +kernel, by decide +kernel, Nat.le_refl 2⟩, by decide +kernel⟩
  · exact fun _ hOther => absurd hOther not_mem_nil
  · exact Nat.le_refl 0
  · exact fun _ hField => absurd hField not_mem_nil

end EvidenceDemand
end Daruma
