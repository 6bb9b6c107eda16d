import Daruma.Core.BlockedCompletions
import Daruma.Core.ErrorAtomicity

/-! The audit of the rules: which of the decisions that the checks of a command
lead to are in the log after it. -/
namespace Daruma

open List Stateful
open RuleEngine (checkObserved scopeChains resolveCheck)
open LifecycleGate (deriveGateChecks)
open Server (engineConfig nthEnv run)
open GateStage (gated Trail consult recordRefusal)
open AutoAppend (LogGrows autoAppendLogs)

def Event.IsFiring (check : GateCheck) (decided : RuleId × RuleDecision) (event : Event) : Prop :=
  ∃ ruleKey actor message reason instant, event = .audit (.ruleFired decided.1 ruleKey decided.2 check.trigger.asStr actor
    check.projectId check.planId check.taskId message reason instant)

namespace RuleEngine

def decidedAs (decision : RuleDecision) (outcomes : List MutationWarning) : List (RuleId × RuleDecision) :=
  outcomes.filterMap fun outcome => outcome.rule.map fun rule => (rule.1, decision)

/-- The rules that act on a check, with what is decided for each of them. The
advisory ones among them warn, also where a required one blocks. -/
def decided (db : Database) (check : GateCheck) (override : GateOverride) : List (RuleId × RuleDecision) :=
  let check := resolveCheck db check
  match scopeChains db check with
  | .error _ => []
  | .ok chains =>
    let found := evaluate db check chains
    decidedAs .warning found.warnings ++
      decidedAs (if (overrideReason override found.acting).isSome then .overridden else .blocked)
        (found.acting.map fun entry => ruleWarning entry.rule)

end RuleEngine

namespace GateStage

/-- The checks that are made of those a batch asks for: all up to one that blocks
or fails. -/
def checksMade (gate : LifecycleGate) (db : Database) (env : Env) (actor : Actor) (override : GateOverride) :
    List GateCheck → List GateCheck
  | [] => []
  | check :: rest => check :: match gate db env actor check override with
      | .error _ | .ok (.blocked .., _) => []
      | .ok _ => checksMade gate db env actor override rest

open RuleEngine (decidedAs decided checkObserved)

variable {codec : TextCodec} {db : Database} {env : Env} {actor : Actor} {override : GateOverride} {check other : GateCheck}
  {decision : RuleDecision} {reason : Option String} {outcomes : List MutationWarning} {now : Timestamp}
  {entry : RuleId × RuleDecision} {event : AuditEvent} {checks : List GateCheck} {trail : Trail}

theorem exists_firing (h : entry ∈ decidedAs decision outcomes) :
    ∃ event ∈ ruleFiredEvents now actor check decision reason outcomes, Event.IsFiring check entry (.audit event) := by
  obtain ⟨outcome, hMem, hIs⟩ := mem_filterMap.mp h
  obtain ⟨rule, hRule, rfl⟩ := Option.map_eq_some_iff.mp hIs
  refine ⟨_, mem_filterMap.mpr ⟨outcome, hMem, by rw [hRule]; rfl⟩, rule.2, actor, outcome.message, reason, now, rfl⟩

def firedDecision : Event → Option RuleDecision
  | .audit (.ruleFired _ _ decision ..) => some decision
  | _ => none

theorem decision_of_firing (h : event ∈ ruleFiredEvents now actor check decision reason outcomes)
    (hFiring : Event.IsFiring other entry (.audit event)) : entry.2 = decision := by
  obtain ⟨outcome, _, hIs⟩ := mem_filterMap.mp h
  obtain ⟨rule, _, rfl⟩ := Option.map_eq_some_iff.mp hIs
  obtain ⟨ruleKey, by', message, given, instant, hEvent⟩ := hFiring
  exact (Option.some.inj (congrArg firedDecision hEvent)).symm

theorem decision_of_decidedAs (h : entry ∈ decidedAs decision outcomes) : entry.2 = decision := by
  obtain ⟨outcome, _, hIs⟩ := mem_filterMap.mp h
  obtain ⟨rule, _, rfl⟩ := Option.map_eq_some_iff.mp hIs
  rfl

def Answers (decided : List (RuleId × RuleDecision)) : GateDecision → Prop
  | .allowed => decided = []
  | .warning warnings => decided = decidedAs .warning warnings
  | .overridden bypassed warnings _ => decided = decidedAs .warning warnings ++ decidedAs .overridden bypassed
  | .blocked _ outcomes _ _ => ∃ warnings, decided = decidedAs .warning warnings ++ decidedAs .blocked outcomes

theorem decision_answers (found : RuleEngine.Evaluation) : Answers (decidedAs .warning found.warnings ++
      decidedAs (if (RuleEngine.overrideReason override found.acting).isSome then .overridden else .blocked)
        (found.acting.map fun entry => RuleEngine.ruleWarning entry.rule)) (RuleEngine.decision check override found) := by
  unfold RuleEngine.decision
  by_cases hActing : found.acting.isEmpty
  · rw [if_pos hActing, isEmpty_iff.mp hActing]
    by_cases hWarnings : found.warnings.isEmpty
    · rw [if_pos hWarnings, isEmpty_iff.mp hWarnings]
      rfl
    · rw [if_neg hWarnings]
      exact append_nil _
  · rw [if_neg hActing]
    cases hReason : RuleEngine.overrideReason override found.acting with
    | some reason => rfl
    | none => exact ⟨found.warnings, rfl⟩

variable {observations : List RuleObservation} {after : Trail}

theorem checkObserved_answers {answer : GateDecision}
    (h : checkObserved db env actor check override = .ok (answer, observations)) :
    Answers (decided db check override) answer := by
  unfold checkObserved at h
  unfold decided
  dsimp only at h ⊢
  cases hChains : scopeChains db (resolveCheck db check) with
  | error e =>
    rw [hChains] at h
    cases h
  | ok chains =>
    rw [hChains] at h
    cases h
    exact decision_answers _

theorem checkObserved_error {e : CoreError} (h : checkObserved db env actor check override = .error e) :
    decided db check override = [] := by
  unfold checkObserved at h
  unfold decided
  dsimp only at h ⊢
  cases hChains : scopeChains db (resolveCheck db check) with
  | error e => rfl
  | ok chains =>
    rw [hChains] at h
    cases h

theorem consult_passed (h : consult codec checkObserved db env actor override trail checks = .ok (.passed after)) :
    (∀ event ∈ trail.audit, event ∈ after.audit) ∧
      ∀ check ∈ checks, ∀ entry ∈ decided db check override, ∃ event ∈ after.audit,
        Event.IsFiring check entry (.audit event) := by
  induction checks generalizing trail with
  | nil =>
    cases h
    exact ⟨fun _ hMem => hMem, fun _ hMem => absurd hMem not_mem_nil⟩
  | cons check rest ih =>
    unfold consult at h
    cases hAnswer : checkObserved db env actor check override with
    | error e =>
      rw [hAnswer] at h
      cases h
    | ok answered =>
      obtain ⟨answer, observations⟩ := answered
      have hAnswers := checkObserved_answers hAnswer
      rw [hAnswer] at h
      -- the decisions of this check are put on the trail before the rest is consulted
      have hRest : ∀ (metrics fired : List AuditEvent) warnings,
          consult codec checkObserved db env actor override ⟨trail.audit ++ fired, metrics, warnings⟩ rest =
            .ok (.passed after) →
          (∀ entry ∈ decided db check override, ∃ event ∈ fired, Event.IsFiring check entry (.audit event)) →
          (∀ event ∈ trail.audit, event ∈ after.audit) ∧
            ∀ other ∈ check :: rest, ∀ entry ∈ decided db other override, ∃ event ∈ after.audit,
              Event.IsFiring other entry (.audit event) := by
        intro metrics fired warnings hConsult hFired
        obtain ⟨hKept, hLater⟩ := ih hConsult
        refine ⟨fun event hMem => hKept event (mem_append_left _ hMem), fun other hOther entry hEntry => ?_⟩
        rcases mem_cons.mp hOther with rfl | hOther
        · obtain ⟨event, hMem, hFiring⟩ := hFired entry hEntry
          exact ⟨event, hKept event (mem_append_right _ hMem), hFiring⟩
        · exact hLater other hOther entry hEntry
      cases answer with
      | allowed =>
        refine hRest _ _ _ h fun entry hEntry => ?_
        rw [(hAnswers : decided db check override = [])] at hEntry
        exact absurd hEntry not_mem_nil
      | warning warnings =>
        refine hRest _ _ _ h fun entry hEntry => ?_
        rw [(hAnswers : decided db check override = _)] at hEntry
        exact exists_firing hEntry
      | overridden bypassed warnings reason =>
        refine hRest _ _ _ h fun entry hEntry => ?_
        rw [(hAnswers : decided db check override = _)] at hEntry
        rcases mem_append.mp hEntry with hWarned | hBypassed
        · obtain ⟨event, hMem, hFiring⟩ := exists_firing hWarned
          exact ⟨event, mem_append_left _ hMem, hFiring⟩
        · obtain ⟨event, hMem, hFiring⟩ := exists_firing hBypassed
          exact ⟨event, mem_append_right _ hMem, hFiring⟩
      | blocked message outcomes advisory unblock => cases h

theorem checksMade_passed (h : consult codec checkObserved db env actor override trail checks = .ok (.passed after)) :
    checksMade checkObserved db env actor override checks = checks := by
  induction checks generalizing trail with
  | nil => rfl
  | cons check rest ih =>
    unfold consult at h
    unfold checksMade
    cases hAnswer : checkObserved db env actor check override with
    | error e =>
      rw [hAnswer] at h
      cases h
    | ok answered =>
      obtain ⟨answer, observations⟩ := answered
      rw [hAnswer] at h
      cases answer with
      | blocked message outcomes advisory unblock => cases h
      | _ => exact congrArg (List.cons check) (ih h)

theorem not_firing_of_metric {metrics : List AuditEvent}
    (h : ∀ event ∈ metrics, ∀ check entry, ¬Event.IsFiring check entry (.audit event)) :
    ∀ event ∈ metrics ++ observations.map (observationMetric codec env.now check), ∀ check entry,
      ¬Event.IsFiring check entry (.audit event) := by
  intro event hMem
  rcases mem_append.mp hMem with hOld | hNew
  · exact h event hOld
  · obtain ⟨observation, _, rfl⟩ := mem_map.mp hNew
    rintro check entry ⟨_, _, _, _, _, hEvent⟩
    cases hEvent

/-- The record of a refusal: the rules that block, and nothing of what the others
decided. -/
structure RefusalRecord (db : Database) (override : GateOverride) (made : List GateCheck) (audit : List AuditEvent) :
    Prop where
  blocks : ∀ check ∈ made, ∀ entry ∈ decided db check override, entry.2 = .blocked →
    ∃ event ∈ audit, Event.IsFiring check entry (.audit event)
  only : ∀ event ∈ audit, ∀ check entry, Event.IsFiring check entry (.audit event) → entry.2 = .blocked

theorem consult_refused {audit : List AuditEvent} {error : CoreError}
    (hMetrics : ∀ event ∈ trail.metrics, ∀ check entry, ¬Event.IsFiring check entry (.audit event))
    (h : consult codec checkObserved db env actor override trail checks = .ok (.refused audit error)) :
    RefusalRecord db override (checksMade checkObserved db env actor override checks) audit := by
  induction checks generalizing trail with
  | nil => cases h
  | cons check rest ih =>
    unfold consult at h
    unfold checksMade
    cases hAnswer : checkObserved db env actor check override with
    | error e =>
      rw [hAnswer] at h
      cases h
    | ok answered =>
      obtain ⟨answer, observations⟩ := answered
      have hAnswers := checkObserved_answers hAnswer
      rw [hAnswer] at h
      have hRest : ∀ (fired : List AuditEvent) warnings,
          consult codec checkObserved db env actor override
            ⟨fired, trail.metrics ++ observations.map (observationMetric codec env.now check), warnings⟩ rest =
              .ok (.refused audit error) →
          (∀ entry ∈ decided db check override, entry.2 ≠ .blocked) →
          RefusalRecord db override (check :: checksMade checkObserved db env actor override rest) audit := by
        intro fired warnings hConsult hNone
        have hRecord := ih (not_firing_of_metric hMetrics) hConsult
        refine ⟨fun other hOther entry hEntry hBlocked => ?_, hRecord.only⟩
        rcases mem_cons.mp hOther with rfl | hOther
        · exact absurd hBlocked (hNone entry hEntry)
        · exact hRecord.blocks other hOther entry hEntry hBlocked
      cases answer with
      | allowed =>
        refine hRest _ _ h fun entry hEntry => ?_
        rw [(hAnswers : decided db check override = [])] at hEntry
        exact absurd hEntry not_mem_nil
      | warning warnings =>
        refine hRest _ _ h fun entry hEntry hBlocked => ?_
        rw [(hAnswers : decided db check override = _)] at hEntry
        cases (decision_of_decidedAs hEntry).symm.trans hBlocked
      | overridden bypassed warnings reason =>
        refine hRest _ _ h fun entry hEntry hBlocked => ?_
        rw [(hAnswers : decided db check override = _)] at hEntry
        rcases mem_append.mp hEntry with hWarned | hBypassed
        · cases (decision_of_decidedAs hWarned).symm.trans hBlocked
        · cases (decision_of_decidedAs hBypassed).symm.trans hBlocked
      | blocked message outcomes advisory unblock =>
        cases h
        obtain ⟨warnings, hDecided⟩ : ∃ warnings, decided db check override =
          decidedAs .warning warnings ++ decidedAs .blocked outcomes := hAnswers
        refine ⟨fun other hOther entry hEntry hBlocked => ?_, fun event hMem other entry hFiring => ?_⟩
        · cases mem_singleton.mp hOther
          rw [hDecided] at hEntry
          rcases mem_append.mp hEntry with hWarned | hBlocks
          · cases (decision_of_decidedAs hWarned).symm.trans hBlocked
          · obtain ⟨event, hMem, hFiring⟩ := exists_firing hBlocks
            exact ⟨event, mem_append_right _ hMem, hFiring⟩
        · rcases mem_append.mp hMem with hMetric | hFired
          · exact absurd hFiring (not_firing_of_metric hMetrics event hMetric other entry)
          · exact decision_of_firing hFired hFiring

theorem consult_blocked (hCheck : check ∈ checksMade checkObserved db env actor override checks)
    (hEntry : entry ∈ decided db check override) (hBlocked : entry.2 = .blocked) :
    ∃ audit error, consult codec checkObserved db env actor override trail checks = .ok (.refused audit error) := by
  induction checks generalizing trail with
  | nil => exact absurd hCheck not_mem_nil
  | cons first rest ih =>
    unfold checksMade at hCheck
    unfold consult
    cases hAnswer : checkObserved db env actor first override with
    | error e =>
      rw [hAnswer] at hCheck
      cases mem_singleton.mp hCheck
      rw [checkObserved_error hAnswer] at hEntry
      exact absurd hEntry not_mem_nil
    | ok answered =>
      obtain ⟨answer, observations⟩ := answered
      have hAnswers := checkObserved_answers hAnswer
      rw [hAnswer] at hCheck
      have hNot : ∀ outcomes, RuleDecision.blocked ≠ .warning → entry ∈ decidedAs .warning outcomes → False :=
        fun _ hNe hMem => hNe (hBlocked.symm.trans (decision_of_decidedAs hMem))
      cases answer with
      | allowed =>
        refine ih ((mem_cons.mp hCheck).resolve_left fun hIs => ?_)
        rw [hIs, (hAnswers : decided db first override = [])] at hEntry
        exact not_mem_nil hEntry
      | warning warnings =>
        refine ih ((mem_cons.mp hCheck).resolve_left fun hIs => ?_)
        rw [hIs, (hAnswers : decided db first override = _)] at hEntry
        exact hNot _ nofun hEntry
      | overridden bypassed warnings reason =>
        refine ih ((mem_cons.mp hCheck).resolve_left fun hIs => ?_)
        rw [hIs, (hAnswers : decided db first override = _)] at hEntry
        rcases mem_append.mp hEntry with hWarned | hBypassed
        · exact hNot _ nofun hWarned
        · cases (decision_of_decidedAs hBypassed).symm.trans hBlocked
      | blocked message outcomes advisory unblock => exact ⟨_, _, rfl⟩

end GateStage

namespace Handler

open Server (recordedSince)

variable {config : Config} {db db' : Database} {env : Env} {caller : Caller} {command : Command} {claimed : Actor}
  {batch : List Event} {relations : Relations}

def draftedBatch (config : Config) (env : Env) (caller : Caller) (command : Command) (claimed : Actor) (db : Database) :
    Option (List Event × Relations) :=
  if isCompletedRunRetry db caller command then none
  else match ensureRunCompletionOwner db caller command with
    | .error _ => none
    | .ok () => match draft config db (env.part 0) caller (attributedActor caller command claimed) command db.relations with
        | (.ok (batch, _), relations) => some (batch, relations)
        | (.error _, _) => none

def checksFor (config : Config) (env : Env) (caller : Caller) (command : Command) (claimed : Actor) (db : Database)
    (batch : List Event) : List GateCheck :=
  match config.lifecycleGate with
  | none => []
  | some gate => GateStage.checksMade gate db (env.part 1) (attributedActor caller command claimed)
      (gateOverrideOf command) (deriveGateChecks batch)

def FiringsLogged (config : Config) (env : Env) (caller : Caller) (command : Command) (claimed : Actor)
    (db : Database) : Prop :=
  ∀ batch relations, draftedBatch config env caller command claimed db = some (batch, relations) →
    ∀ check ∈ checksFor config env caller command claimed { db with relations := relations } batch,
      ∀ entry ∈ RuleEngine.decided { db with relations := relations } check (gateOverrideOf command),
        ∃ event ∈ recordedSince db (handleWithRunOwner config env caller command claimed db).2, event.IsFiring check entry

/-- The batch of the command passes the gate and is stored. -/
def Persists (config : Config) (env : Env) (caller : Caller) (command : Command) (claimed : Actor) (db : Database) :
    Prop :=
  ∃ batch relations trail persisted appended,
    Accepted config env caller command claimed db batch relations trail persisted appended

def OnlyBlocks (config : Config) (env : Env) (caller : Caller) (command : Command) (claimed : Actor) (db : Database) :
    Prop :=
  ∀ batch relations, draftedBatch config env caller command claimed db = some (batch, relations) →
    ∀ check ∈ checksFor config env caller command claimed { db with relations := relations } batch,
      ∀ entry ∈ RuleEngine.decided { db with relations := relations } check (gateOverrideOf command),
        entry.2 = .blocked

/-- The ids that are minted for a refusal are new, and distinct. -/
structure MintsNew (env : Env) (db : Database) : Prop where
  fresh : ∀ n, db.events.find? (env.fresh n) = none
  distinct : Function.Injective env.uuid

theorem mintsNew_of_calls {n : Nat}
    (hCalls : (db.events.rows.all fun envelope => (Nat.unpair envelope.id.uuid).1 ≠ n) = true) :
    MintsNew ((nthEnv n).part 1) db := by
  refine ⟨fun m => KeyedTable.find?_eq_none_iff.mpr fun row hRow hSame => ?_, fun first second hSame => ?_⟩
  · have hOther := of_decide_eq_true (all_eq_true.mp hCalls row hRow)
    rw [hSame] at hOther
    exact hOther (congrArg Prod.fst (Nat.unpair_pair n (Nat.pair 1 m)))
  · have hPairs : Nat.pair n (Nat.pair 1 first) = Nat.pair n (Nat.pair 1 second) := hSame
    exact (Nat.pair_eq_pair.mp (Nat.pair_eq_pair.mp hPairs).2).2

theorem draftedBatch_eq_some (h : draftedBatch config env caller command claimed db = some (batch, relations)) :
    isCompletedRunRetry db caller command = false ∧ ensureRunCompletionOwner db caller command = .ok () ∧
      ∃ warnings, draft config db (env.part 0) caller (attributedActor caller command claimed) command db.relations =
        (.ok (batch, warnings), relations) := by
  unfold draftedBatch at h
  split at h
  · cases h
  · rename_i hRetry
    split at h
    · cases h
    · rename_i hOwner
      split at h
      · rename_i drafted warnings after hDraft
        cases h
        exact ⟨Bool.eq_false_iff.mpr hRetry, hOwner, warnings, hDraft⟩
      · cases h

theorem handle_of_draft {warnings : List MutationWarning} (hRetry : isCompletedRunRetry db caller command = false)
    (hOwner : ensureRunCompletionOwner db caller command = .ok ())
    (hDraft : draft config db (env.part 0) caller (attributedActor caller command claimed) command db.relations =
      (.ok (batch, warnings), relations)) (hNonempty : batch ≠ []) :
    handleWithRunOwner config env caller command claimed db = (do
      let trail ← gated config (env.part 1) (attributedActor caller command claimed) (gateOverrideOf command) batch
      let envelopes := envelopesOf (env.part 2) (attributedActor caller command claimed) (trail.surround batch)
      let persisted ← commit (env.part 3) caller (attributedActor caller command claimed) command
        (withProvenance command envelopes)
      Projections.applyEvents (env.part 4) persisted
      let applied ← Stateful.get
      Stateful.set (autoAppendLogs config (env.part 5) applied persisted)
      pure ⟨persisted, warnings ++ trail.warnings⟩ : Serving DispatchOutcome) { db with relations := relations } := by
  have hBuilding : building (draft config db (env.part 0) caller (attributedActor caller command claimed) command) db =
      (.ok (batch, warnings), { db with relations := relations }) := by
    unfold building
    rw [hDraft]
  unfold handleWithRunOwner
  rw [bind_eq]
  dsimp only [Stateful.get]
  rw [if_neg (by rw [hRetry]; exact Bool.false_ne_true), bind_eq]
  dsimp only [Stateful.lift]
  rw [hOwner]
  dsimp only
  rw [bind_eq, hBuilding]
  dsimp only
  rw [if_neg (by simpa using hNonempty)]

theorem handle_drafted (h : draftedBatch config env caller command claimed db = some (batch, relations))
    (hNonempty : batch ≠ []) : ∃ warnings, handleWithRunOwner config env caller command claimed db = (do
      let trail ← gated config (env.part 1) (attributedActor caller command claimed) (gateOverrideOf command) batch
      let envelopes := envelopesOf (env.part 2) (attributedActor caller command claimed) (trail.surround batch)
      let persisted ← commit (env.part 3) caller (attributedActor caller command claimed) command
        (withProvenance command envelopes)
      Projections.applyEvents (env.part 4) persisted
      let applied ← Stateful.get
      Stateful.set (autoAppendLogs config (env.part 5) applied persisted)
      pure ⟨persisted, warnings ++ trail.warnings⟩ : Serving DispatchOutcome) { db with relations := relations } := by
  obtain ⟨hRetry, hOwner, warnings, hDraft⟩ := draftedBatch_eq_some h
  exact ⟨warnings, handle_of_draft hRetry hOwner hDraft hNonempty⟩

theorem envelopesOf_ids {actor : Actor} {events : List Event} :
    (envelopesOf env actor events).map EventEnvelope.id = (List.range events.length).map env.fresh := by
  apply ext_getElem
  · simp [envelopesOf]
  · intro n h h'
    simp [envelopesOf, EventEnvelope.new]

theorem MintsNew.appends (h : MintsNew env db) (actor : Actor) (events : List Event) :
    ∃ persisted appended, appendBatch db (envelopesOf env actor events) = .ok (persisted, appended) := by
  have hIds : ∀ envelope ∈ envelopesOf env actor events,
      envelope.originDeviceId = none ∧ db.events.find? envelope.id = none := by
    intro envelope hMem
    obtain ⟨n, hn, rfl⟩ := mem_mapIdx.mp hMem
    exact ⟨rfl, h.fresh n⟩
  have hDistinct : ((envelopesOf env actor events).map EventEnvelope.id).Nodup := by
    rw [envelopesOf_ids]
    exact nodup_range.map fun m n hSame => h.distinct (congrArg Id.uuid hSame)
  exact appendBatch_new (fun envelope hMem => (hIds envelope hMem).1) (fun envelope hMem => (hIds envelope hMem).2) hDistinct

theorem recordRefusal_new {actor : Actor} {audit : List AuditEvent} (hMints : MintsNew env db) :
    ∃ after, recordRefusal env actor audit db = (.ok (), after) ∧
      recordedSince db after = audit.map Event.audit := by
  unfold recordRefusal
  split
  · rename_i hEmpty
    refine ⟨db, rfl, ?_⟩
    rw [isEmpty_iff.mp hEmpty, recordedSince, drop_length]
    rfl
  · obtain ⟨stored, appended, hAppend⟩ := hMints.appends actor (audit.map Event.audit)
    refine ⟨{ appended with activity := stored.foldl ActivityRepo.applyEvent appended.activity }, ?_, ?_⟩
    · rw [bind_eq]
      dsimp only [Stateful.get]
      rw [bind_eq]
      dsimp only [Stateful.lift]
      rw [hAppend]
      rfl
    · obtain ⟨hPayloads, hRows, _⟩ := appendBatch_ok hAppend
      rw [recordedSince]
      dsimp only
      rw [hRows, drop_left, hPayloads, envelopesOf_payload]

/-- The stages that a drafted batch goes through. -/
inductive Staged (config : Config) (env : Env) (caller : Caller) (command : Command) (claimed : Actor) (db : Database)
    (batch : List Event) (relations : Relations) : Database → Prop where
  | passed {trail : Trail} {persisted : List EventEnvelope} {appended after : Database}
      (hAccepted : Accepted config env caller command claimed db batch relations trail persisted appended)
      (hLog : LogGrows appended after) : Staged config env caller command claimed db batch relations after
  /-- The gate lets it pass, and it is not stored. -/
  | unstored {trail : Trail} {e : CoreError}
      (hPassed : gated config (env.part 1) (attributedActor caller command claimed) (gateOverrideOf command)
        batch { db with relations := relations } = (.ok trail, { db with relations := relations }))
      (hStored : persist { db with relations := relations } (env.part 3) caller (attributedActor caller command claimed)
        command (withProvenance command (envelopesOf (env.part 2) (attributedActor caller command claimed)
          (trail.surround batch))) = .error e) :
      Staged config env caller command claimed db batch relations { db with relations := relations }
  | refused {e : CoreError} {after : Database}
      (hGated : gated config (env.part 1) (attributedActor caller command claimed) (gateOverrideOf command)
        batch { db with relations := relations } = (.error e, after)) :
      Staged config env caller command claimed db batch relations after

theorem staged (h : draftedBatch config env caller command claimed db = some (batch, relations)) (hNonempty : batch ≠ []) :
    Staged config env caller command claimed db batch relations
      (handleWithRunOwner config env caller command claimed db).2 := by
  obtain ⟨_, _, hDraft⟩ := draftedBatch_eq_some h
  obtain ⟨warnings, hHandle⟩ := handle_drafted h hNonempty
  rw [hHandle, bind_eq]
  cases hGated : gated config (env.part 1) (attributedActor caller command claimed) (gateOverrideOf command)
      batch { db with relations := relations } with
  | mk outcome gatedDb =>
  cases outcome with
  | error e => exact .refused hGated
  | ok trail =>
    obtain ⟨_, _, rfl⟩ | ⟨_, hError, _⟩ := gated_cases hGated
    swap
    · cases hError
    dsimp only
    rw [bind_eq]
    unfold commit
    rw [bind_eq]
    dsimp only [Stateful.get]
    rw [bind_eq]
    dsimp only [Stateful.lift]
    cases hStored : persist { db with relations := relations } (env.part 3) caller
        (attributedActor caller command claimed) command (withProvenance command (envelopesOf (env.part 2)
          (attributedActor caller command claimed) (trail.surround batch))) with
    | error e => exact .unstored hGated hStored
    | ok stored =>
      obtain ⟨persisted, appended⟩ := stored
      refine .passed ⟨hDraft, hNonempty, hGated, hStored⟩ ?_
      change LogGrows appended ((do
        Projections.applyEvents (env.part 4) persisted
        let applied ← Stateful.get
        Stateful.set (autoAppendLogs config (env.part 5) applied persisted)
        pure ⟨persisted, warnings ++ trail.warnings⟩ : Serving DispatchOutcome) appended).2
      rw [bind_eq]
      cases hApplied : Projections.applyEvents (env.part 4) persisted appended with
      | mk outcome applied =>
      have hSame : LogGrows appended applied :=
        ⟨[], by rw [(Projections.applyEvents_sameLog hApplied).1, append_nil]⟩
      cases outcome with
      | error e => exact hSame
      | ok u => exact hSame.trans (AutoAppend.autoAppendLogs_lines persisted applied).grows

section

variable {gate : LifecycleGate} {actor : Actor} {override : GateOverride} {events : List Event}

theorem gated_error {e : CoreError} (hGate : config.lifecycleGate = some gate)
    (h : consult config.text gate db env actor override Trail.empty
      (deriveGateChecks events) = .error e) :
    gated config env actor override events db = (.error e, db) := by
  unfold gated
  rw [hGate]
  dsimp only
  rw [bind_eq]
  dsimp only [Stateful.get]
  rw [bind_eq]
  dsimp only [Stateful.lift]
  rw [h]

theorem gated_passed {trail : Trail} (hGate : config.lifecycleGate = some gate)
    (h : consult config.text gate db env actor override Trail.empty
      (deriveGateChecks events) = .ok (.passed trail)) :
    gated config env actor override events db = (.ok trail, db) := by
  unfold gated
  rw [hGate]
  dsimp only
  rw [bind_eq]
  dsimp only [Stateful.get]
  rw [bind_eq]
  dsimp only [Stateful.lift]
  rw [h]
  rfl

theorem gated_refused {audit : List AuditEvent} {error : CoreError} {recorded : Except CoreError Unit}
    (hGate : config.lifecycleGate = some gate)
    (h : consult config.text gate db env actor override Trail.empty
      (deriveGateChecks events) = .ok (.refused audit error))
    (hRecord : recordRefusal env actor audit db = (recorded, db')) :
    gated config env actor override events db = (recorded.bind fun _ => .error error, db') := by
  unfold gated
  rw [hGate]
  dsimp only
  rw [bind_eq]
  dsimp only [Stateful.get]
  rw [bind_eq]
  dsimp only [Stateful.lift]
  rw [h]
  dsimp only
  rw [bind_eq, hRecord]
  cases recorded <;> rfl

end

theorem recordedSince_same : recordedSince db { db with relations := relations } = [] := by
  rw [recordedSince, drop_length]
  rfl

variable {after : Database}

theorem Accepted.audit_recorded {trail : Trail} {persisted : List EventEnvelope} {appended : Database}
    (h : Accepted config env caller command claimed db batch relations trail persisted appended)
    (hLog : LogGrows appended after) : ∀ event ∈ trail.audit, .audit event ∈ recordedSince db after := by
  intro event hMem
  obtain ⟨later, hRows⟩ := hLog
  obtain ⟨runs, agentClaims, owners, released, hAppend⟩ := persist_ok h.stored
  obtain ⟨f, hRelinking, hPayloads⟩ := withProvenance_payloads command (envelopesOf (env.part 2)
    (attributedActor caller command claimed) (trail.surround batch))
  have hKept : f (.audit event) = .audit event := by rcases hRelinking with rfl | ⟨origin, rfl⟩ <;> rfl
  rw [recordedSince, hRows, h.log, append_assoc, drop_left, map_append, (appendBatch_ok hAppend).1,
    map_append, hPayloads, envelopesOf_payload, Trail.surround]
  refine mem_append_left _ (mem_append_left _ (mem_map.mpr ⟨.audit event, ?_, hKept⟩))
  exact mem_append_left _ (mem_append_left _ (mem_map_of_mem hMem))

theorem logged_of_staged (hMints : MintsNew (env.part 1) db) (hGate : config.lifecycleGate = some checkObserved)
    (h : Staged config env caller command claimed db batch relations after) :
    (∀ check ∈ checksFor config env caller command claimed { db with relations := relations } batch,
      ∀ entry ∈ RuleEngine.decided { db with relations := relations } check (gateOverrideOf command),
        ∃ event ∈ recordedSince db after, event.IsFiring check entry) ↔
      ((∃ trail persisted appended,
        Accepted config env caller command claimed db batch relations trail persisted appended) ∨
      ∀ check ∈ checksFor config env caller command claimed { db with relations := relations } batch,
        ∀ entry ∈ RuleEngine.decided { db with relations := relations } check (gateOverrideOf command),
          entry.2 = .blocked) := by
  have hMade : checksFor config env caller command claimed { db with relations := relations } batch =
      GateStage.checksMade checkObserved { db with relations := relations } (env.part 1)
        (attributedActor caller command claimed) (gateOverrideOf command) (deriveGateChecks batch) := by
    rw [checksFor, hGate]
  rw [hMade]
  -- nothing is on record: then no rule must have acted
  have hSilent : recordedSince db after = [] → (¬∃ audit error, consult config.text checkObserved
      { db with relations := relations } (env.part 1) (attributedActor caller command claimed) (gateOverrideOf command)
      Trail.empty (deriveGateChecks batch) = .ok (.refused audit error)) →
      ∀ check ∈ GateStage.checksMade checkObserved { db with relations := relations } (env.part 1)
        (attributedActor caller command claimed) (gateOverrideOf command) (deriveGateChecks batch),
        ∀ entry ∈ RuleEngine.decided { db with relations := relations } check (gateOverrideOf command),
          (∃ event ∈ recordedSince db after, event.IsFiring check entry) ↔ entry.2 = .blocked := by
    intro hNone hNotRefused check hCheck entry hEntry
    rw [hNone]
    refine ⟨fun ⟨_, hMem, _⟩ => absurd hMem not_mem_nil, fun hBlocked => ?_⟩
    exact absurd (GateStage.consult_blocked hCheck hEntry hBlocked) hNotRefused
  cases hConsult : consult config.text checkObserved { db with relations := relations } (env.part 1)
      (attributedActor caller command claimed) (gateOverrideOf command) Trail.empty
      (deriveGateChecks batch) with
  | error e =>
    have hGated := gated_error hGate hConsult
    cases h with
    | passed hAccepted => cases hAccepted.passed.symm.trans hGated
    | unstored hPassed => cases hPassed.symm.trans hGated
    | refused hRefused =>
      cases hRefused.symm.trans hGated
      have hSame := hSilent recordedSince_same (by rintro ⟨_, _, hIs⟩; cases hConsult.symm.trans hIs)
      refine (forall₄_congr hSame).trans (or_iff_right ?_).symm
      rintro ⟨_, _, _, hAccepted⟩
      cases hAccepted.passed.symm.trans hGated
  | ok verdict =>
    cases verdict with
    | refused audit error =>
      obtain ⟨recorded, hRecord, hAudit⟩ := @recordRefusal_new { db with relations := relations } (env.part 1)
        (attributedActor caller command claimed) audit ⟨hMints.fresh, hMints.distinct⟩
      have hGated := gated_refused hGate hConsult hRecord
      have hRefusal := GateStage.consult_refused (fun _ hMem => absurd hMem not_mem_nil) hConsult
      cases h with
      | passed hAccepted => cases hAccepted.passed.symm.trans hGated
      | unstored hPassed => cases hPassed.symm.trans hGated
      | refused hRefused =>
        cases hRefused.symm.trans hGated
        have hSince : recordedSince db after = audit.map Event.audit := hAudit
        rw [hSince]
        refine (forall₄_congr fun check hCheck entry hEntry => ⟨?_, fun hBlocked => ?_⟩).trans (or_iff_right ?_).symm
        · rintro ⟨event, hMem, hFiring⟩
          obtain ⟨fired, hFired, rfl⟩ := mem_map.mp hMem
          exact hRefusal.only fired hFired check entry hFiring
        · obtain ⟨fired, hFired, hFiring⟩ := hRefusal.blocks check hCheck entry hEntry hBlocked
          exact ⟨_, mem_map_of_mem hFired, hFiring⟩
        · rintro ⟨_, _, _, hAccepted⟩
          cases hAccepted.passed.symm.trans hGated
    | passed trail =>
      have hGated := gated_passed hGate hConsult
      have hLogged := (GateStage.consult_passed hConsult).2
      cases h with
      | refused hRefused => cases hRefused.symm.trans hGated
      | passed hAccepted hLog =>
        cases hAccepted.passed.symm.trans hGated
        refine ⟨fun _ => .inl ⟨_, _, _, hAccepted⟩, fun _ check hCheck entry hEntry => ?_⟩
        rw [GateStage.checksMade_passed hConsult] at hCheck
        obtain ⟨event, hMem, hFiring⟩ := hLogged check hCheck entry hEntry
        exact ⟨_, hAccepted.audit_recorded hLog event hMem, hFiring⟩
      | unstored hPassed hStored =>
        cases hPassed.symm.trans hGated
        have hSame := hSilent recordedSince_same (by rintro ⟨_, _, hIs⟩; cases hConsult.symm.trans hIs)
        refine (forall₄_congr hSame).trans (or_iff_right ?_).symm
        rintro ⟨_, _, _, hAccepted⟩
        cases hAccepted.passed.symm.trans hGated
        cases hAccepted.stored.symm.trans hStored

/-- The decisions of the rules are on record when the batch is stored, or when
every rule that acts blocks it. -/
theorem firings_logged_iff (hMints : MintsNew (env.part 1) db)
    (hGate : ∀ gate, config.lifecycleGate = some gate → gate = RuleEngine.checkObserved) :
    FiringsLogged config env caller command claimed db ↔
      Persists config env caller command claimed db ∨ OnlyBlocks config env caller command claimed db := by
  cases hDrafted : draftedBatch config env caller command claimed db with
  | none =>
    refine ⟨fun _ => .inr fun batch relations hIs => ?_, fun _ batch relations hIs => ?_⟩
    · cases hDrafted.symm.trans hIs
    · cases hDrafted.symm.trans hIs
  | some drafted =>
    obtain ⟨batch, relations⟩ := drafted
    obtain ⟨_, _, warnings, hDraft⟩ := draftedBatch_eq_some hDrafted
    have hOnly : OnlyBlocks config env caller command claimed db ↔
        ∀ check ∈ checksFor config env caller command claimed { db with relations := relations } batch,
          ∀ entry ∈ RuleEngine.decided { db with relations := relations } check (gateOverrideOf command),
            entry.2 = .blocked := by
      refine ⟨fun h => h batch relations hDrafted, fun h other relations' hIs => ?_⟩
      cases hDrafted.symm.trans hIs
      exact h
    have hFirings : FiringsLogged config env caller command claimed db ↔
        ∀ check ∈ checksFor config env caller command claimed { db with relations := relations } batch,
          ∀ entry ∈ RuleEngine.decided { db with relations := relations } check (gateOverrideOf command),
            ∃ event ∈ recordedSince db (handleWithRunOwner config env caller command claimed db).2,
              event.IsFiring check entry := by
      refine ⟨fun h => h batch relations hDrafted, fun h other relations' hIs => ?_⟩
      cases hDrafted.symm.trans hIs
      exact h
    have hPersists : Persists config env caller command claimed db ↔ ∃ trail persisted appended,
        Accepted config env caller command claimed db batch relations trail persisted appended := by
      refine ⟨fun ⟨other, relations', trail, persisted, appended, hAccepted⟩ => ?_, fun ⟨trail, persisted, appended, h⟩ =>
        ⟨batch, relations, trail, persisted, appended, h⟩⟩
      obtain ⟨_, hBuilt⟩ := hAccepted.built
      cases hDraft.symm.trans hBuilt
      exact ⟨trail, persisted, appended, hAccepted⟩
    rw [hOnly, hFirings, hPersists]
    by_cases hActs : checksFor config env caller command claimed { db with relations := relations } batch = []
    · rw [hActs]
      refine ⟨fun _ => .inr fun _ hMem => absurd hMem not_mem_nil, fun _ _ hMem => absurd hMem not_mem_nil⟩
    · have hEngine : config.lifecycleGate = some RuleEngine.checkObserved := by
        cases hIs : config.lifecycleGate with
        | none =>
          rw [checksFor, hIs] at hActs
          exact absurd rfl hActs
        | some gate => rw [hGate gate hIs]
      have hNonempty : batch ≠ [] := by
        rintro rfl
        rw [checksFor, hEngine] at hActs
        exact hActs rfl
      exact logged_of_staged hMints hEngine (staged hDrafted hNonempty)

theorem firedDecision_of_isFiring {check : GateCheck} {entry : RuleId × RuleDecision} {event : Event}
    (h : event.IsFiring check entry) : GateStage.firedDecision event = some entry.2 := by
  obtain ⟨_, _, _, _, _, rfl⟩ := h
  rfl

private def decides (env : Env) (command : Command) (db : Database) (decision : RuleDecision) : Bool :=
  (draftedBatch engineConfig env .internal command .anyUser db).any fun drafted =>
    (checksFor engineConfig env .internal command .anyUser { db with relations := drafted.2 } drafted.1).any
      fun check => (RuleEngine.decided { db with relations := drafted.2 } check (gateOverrideOf command)).any
        fun entry => entry.2 = decision

theorem not_logged_of_decides {command : Command} {decision : RuleDecision}
    (h : decides env command db decision = true)
    (hNone : ((recordedSince db (handleWithRunOwner engineConfig env .internal command .anyUser db).2).all
      fun event => GateStage.firedDecision event ≠ some decision) = true) :
    ¬FiringsLogged engineConfig env .internal command .anyUser db := by
  intro hLogged
  unfold decides at h
  cases hDrafted : draftedBatch engineConfig env .internal command .anyUser db with
  | none =>
  rw [hDrafted] at h
  cases h
  | some drafted =>
  obtain ⟨batch, relations⟩ := drafted
  rw [hDrafted] at h
  have hChecks : (checksFor engineConfig env .internal command .anyUser { db with relations := relations } batch).any
      (fun check => (RuleEngine.decided { db with relations := relations } check (gateOverrideOf command)).any
        fun entry => entry.2 = decision) = true := h
  obtain ⟨check, hCheck, hEntries⟩ := any_eq_true.mp hChecks
  obtain ⟨entry, hEntry, hDecision⟩ := any_eq_true.mp hEntries
  obtain ⟨event, hMem, hFiring⟩ := hLogged batch relations hDrafted check hCheck entry hEntry
  have hFired := firedDecision_of_isFiring hFiring
  rw [of_decide_eq_true hDecision] at hFired
  exact of_decide_eq_true (all_eq_true.mp hNone event hMem) hFired

private def startTask : Command := .task (.setStatus ⟨7⟩ .inProgress false none none)

/-- The advisory rule warns of the start that the required one refuses, and the log
does not show it. -/
theorem refused_start_loses_warning :
    ¬FiringsLogged Server.engineConfig (Server.nthEnv 3) .internal startTask .anyUser
      (Server.run Server.engineConfig ruledRun) ∧
    (refusedStart.2.events.rows.all fun envelope =>
      GateStage.firedDecision envelope.payload ≠ some .warning) = true :=
  ⟨@not_logged_of_decides _ _ _ .warning (by decide +kernel) (by decide +kernel), by decide +kernel⟩

/-- The same without the required rule. -/
private def advisedRun : Database := run engineConfig (Server.commands [
  .rule (.createRule ⟨none, "advisory", "", .tenant, .taskBeforeStart, none, .ownerRequired, .recommendation, "", false,
    true⟩),
  .task (.createTask { NewTask.new "task" with id := some ⟨7⟩ })])

private theorem mints_advisedRun : MintsNew ((nthEnv 2).part 1) advisedRun :=
  mintsNew_of_calls (by decide +kernel)

theorem firings_logged_iff_advised : decides (Server.nthEnv 2) startTask advisedRun .warning = true ∧
      (FiringsLogged Server.engineConfig (Server.nthEnv 2) .internal startTask .anyUser advisedRun ↔
        Persists Server.engineConfig (Server.nthEnv 2) .internal startTask .anyUser advisedRun ∨
          OnlyBlocks Server.engineConfig (Server.nthEnv 2) .internal startTask .anyUser advisedRun) :=
  ⟨by decide +kernel, firings_logged_iff mints_advisedRun fun gate hIs => (Option.some.inj hIs).symm⟩

end Handler
end Daruma
