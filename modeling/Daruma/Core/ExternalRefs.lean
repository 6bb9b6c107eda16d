import Daruma.Core.WarrantedBatches
import Daruma.Core.WorkHistory

/-! Plans that are created under a foreign identity. The creation looks the identity
up in a table that no event writes. -/
namespace Daruma

open AutoAppend Stateful List

/-- The foreign identities are the same rows. -/
def SameExternalRefs (before after : Database) : Prop := after.externalRefs = before.externalRefs

theorem SameExternalRefs.refl (db : Database) : SameExternalRefs db db := rfl

theorem SameExternalRefs.trans (first second third : Database) (h : SameExternalRefs first second)
    (h' : SameExternalRefs second third) : SameExternalRefs first third :=
  Eq.trans h' h

namespace Projections

variable {env : Env} {envelope : EventEnvelope} {db db' : Database}

theorem projectors_externalRefs {step : Database → Result Database} (hStep : step ∈ projectors env envelope)
    (h : step db = .ok db') : SameExternalRefs db db' := by
  obtain ⟨_, hWrote⟩ := exists_wrote hStep h
  cases hWrote
  all_goals rfl

theorem applyEvents_externalRefs {envelopes : List EventEnvelope} {outcome : Except CoreError Unit}
    (h : applyEvents env envelopes db = (outcome, db')) : SameExternalRefs db db' := by
  refine inTurn_rel SameExternalRefs.refl SameExternalRefs.trans ?_ h
  intro step hStep before after hTaken
  obtain ⟨envelope, _, hProjector⟩ := mem_flatMap.mp hStep
  exact projectors_externalRefs hProjector hTaken

end Projections

namespace Handler

variable {config : Config} {env : Env} {caller : Caller} {command : Command} {claimed : Actor} {db : Database}

theorem handle_externalRefs : SameExternalRefs db (handleWithRunOwner config env caller command claimed db).2 := by
  refine handle_rule (fun hAudited => ?_) (fun hAccepted hApplied => ?_)
    fun ⟨_, _, _, _, _, _, hLines, _⟩ hApplied => ?_
  · obtain ⟨_, _, _, _, _, _, rfl⟩ := hAudited
    rfl
  · obtain ⟨_, _, _, _, _, rfl⟩ := hAccepted.frame
    have hSame := Projections.applyEvents_externalRefs hApplied
    exact hSame
  · rw [hLines]
    exact hApplied

variable {plan : NewPlan} {ref : String × String × String}

theorem draft_createPlan {actor : Actor} {batch : List Event} {warnings : List MutationWarning} {relations : Relations}
    (hUnknown : ExternalRefRepo.lookup db ref.1 ref.2.1 ref.2.2 = none)
    (h : draft config db (env.part 0) caller actor (.plan (.createPlan plan (some ref))) db.relations =
      (.ok (batch, warnings), relations)) : ∃ created, .plan (.planCreated created) ∈ batch := by
  obtain ⟨sourced, hResolved, h⟩ := lift_bind_ok.mp h
  obtain ⟨built, middle, hBuilt, h⟩ := bind_eq_ok.mp h
  obtain ⟨hBatch, rfl⟩ := pure_eq.mp h
  cases hBatch
  obtain ⟨⟨prepared, nodes⟩, _, hResolved⟩ := Outcome.bind_eq_ok.mp hResolved
  obtain ⟨⟨events, noted⟩, _, hResolved⟩ := Outcome.bind_eq_ok.mp hResolved
  cases Outcome.pure_eq_ok.mp hResolved
  have hCreate : List.map Event.plan <$> PlanCommands.createPlan config db ((env.part 0).part 1) prepared (some ref) =
      .ok built := (lift_eq.mp hBuilt).1
  obtain ⟨recorded, hRecorded, rfl⟩ := Outcome.map_eq_ok.mp hCreate
  unfold PlanCommands.createPlan at hRecorded
  dsimp only at hRecorded
  rw [hUnknown, if_neg (by decide)] at hRecorded
  obtain ⟨created, _, hRecorded⟩ := Outcome.bind_eq_ok.mp hRecorded
  cases Outcome.pure_eq_ok.mp hRecorded
  refine ⟨created, mem_append_left _ (mem_map.mpr ⟨.plan (.planCreated created), ?_, rfl⟩)⟩
  unfold withSource
  split
  · exact mem_append_right _ (mem_singleton.mpr rfl)
  · exact mem_singleton.mpr rfl

theorem handle_planCreated {envelope : EventEnvelope} {plan : Plan}
    (hNew : envelope ∉ db.events.rows) (hPlan : envelope.payload = .plan (.planCreated plan))
    (hMem : envelope ∈ (handleWithRunOwner config env caller command claimed db).2.events.rows) :
    plan.id = (builderEnv env).fresh 0 := by
  have hBatch : ∀ {batch relations trail persisted appended},
      Accepted config env caller command claimed db batch relations trail persisted appended →
      envelope ∈ appended.events.rows → plan.id = (builderEnv env).fresh 0 := by
    intro batch relations trail persisted appended hAccepted hLogged
    rw [hAccepted.log] at hLogged
    have hPersisted := (mem_append.mp hLogged).resolve_left hNew
    have hPayload := mem_map_of_mem (f := EventEnvelope.payload) hPersisted
    rw [hPlan] at hPayload
    exact (hAccepted.warranted (hAccepted.mem_of_work hPayload (.inl ⟨_, rfl⟩)) rfl).1
  cases hRun : handleWithRunOwner config env caller command claimed db with
  | mk outcome db' =>
  rw [hRun] at hMem
  cases handled hRun with
  | unlogged _ _ hAudited =>
    obtain ⟨audit, hAudit, hRows, _⟩ := hAudited
    rw [hRows] at hMem
    have hIs := hAudit envelope ((mem_append.mp hMem).resolve_left hNew)
    rw [hPlan] at hIs
    cases hIs
  | stranded hAccepted hApplied =>
    rw [(Projections.applyEvents_sameLog hApplied).1] at hMem
    exact hBatch hAccepted hMem
  | projected hAccepted hApplied _ =>
    obtain ⟨_, _, _, _, later, _, hLines, hRows, hIsLine, _⟩ := AutoAppend.autoAppendLogs_lines _ _
    rw [hLines] at hMem
    rcases mem_append.mp (hRows ▸ hMem : envelope ∈ _ ++ later) with hLogged | hLater
    · rw [(Projections.applyEvents_sameLog hApplied).1] at hLogged
      exact hBatch hAccepted hLogged
    · obtain ⟨_, _, _, hIs⟩ := hIsLine envelope hLater
      cases hIs.symm.trans hPlan

theorem createPlan_logs {answer : DispatchOutcome} {after : Database}
    (hUnknown : ExternalRefRepo.lookup db ref.1 ref.2.1 ref.2.2 = none)
    (h : handleWithRunOwner config env caller (.plan (.createPlan plan (some ref))) claimed db = (.ok answer, after)) :
    after.events.rows ≠ db.events.rows := by
  obtain ⟨batch, relations, ⟨warnings, hDraft⟩, hEnd⟩ := (answered h).resolve_left nofun
  obtain ⟨created, hCreated⟩ := draft_createPlan hUnknown hDraft
  rcases hEnd with ⟨rfl, _⟩ | ⟨trail, persisted, appended, applied, hAccepted, hApplied, _, rfl⟩
  · exact absurd hCreated not_mem_nil
  · obtain ⟨later, hGrown⟩ := (@AutoAppend.autoAppendLogs_lines config (env.part 5) persisted applied).grows
    rw [hGrown, (Projections.applyEvents_sameLog hApplied).1, hAccepted.log, append_assoc]
    intro hSame
    have hNone := append_eq_nil_iff.mp (append_cancel_left (hSame.trans (append_nil _).symm))
    obtain ⟨f, audit, metrics, releases, _, _, _, _, hPayloads⟩ := hAccepted.payloads
    rw [hNone.1, map_nil] at hPayloads
    have hMapped : f (.plan (.planCreated created)) ∈ audit ++ batch.map f ++ metrics ++ releases := by
      simp only [mem_append]
      exact .inl (.inl (.inr (mem_map_of_mem hCreated)))
    rw [← hPayloads] at hMapped
    exact absurd hMapped not_mem_nil

end Handler

namespace Server

variable {config : Config}

theorem serve_externalRefs (db : Database) (call : Call) : SameExternalRefs db (serve config db call) := by
  cases call with
  | command env caller command actor => exact Handler.handle_externalRefs
  | _ =>
    refine serve_rule rfl fun ⟨_, _, _, _, _, _, hFrame, _⟩ => ?_
    rw [hFrame]
    rfl

theorem run_externalRefs (calls : List Call) : (run config calls).externalRefs = .empty := by
  have hRun : SameExternalRefs Database.empty (run config calls) := by
    refine run_induction (SameExternalRefs.refl _) ?_ (Meets.of_forall fun _ _ => trivial)
    intro db call hEmpty _
    exact hEmpty.trans _ _ _ (serve_externalRefs db call)
  exact hRun

def Call.asksFor (ref : String × String × String) : Call → Prop
  | .command _ _ (.plan (.createPlan _ (some given))) _ => given = ref
  | _ => False

/-- A call puts the creation of a plan for the identity on record. -/
def Creates (config : Config) (db : Database) (ref : String × String × String) (call : Call) (planId : PlanId) : Prop :=
  Call.asksFor ref call ∧ ∃ envelope ∈ (serve config db call).events.rows, envelope ∉ db.events.rows ∧
    ∃ plan, envelope.payload = .plan (.planCreated plan) ∧ plan.id = planId

def CreatedFor (config : Config) (ref : String × String × String) (calls : List Call) (planId : PlanId) : Prop :=
  ∃ earlier call later, calls = earlier ++ call :: later ∧ Creates config (run config earlier) ref call planId

/-- A call is accepted, and appends no event. -/
def Repeats (config : Config) (db : Database) : Call → Prop
  | .command env caller command actor =>
    (Handler.handleWithRunOwner config env caller command actor db).1.toBool = true ∧
      (Handler.handleWithRunOwner config env caller command actor db).2.events.rows = db.events.rows
  | _ => False

/-- At most one plan is created for the identity, and every later request for it is a
repetition. -/
structure CreatedOnce (config : Config) (ref : String × String × String) (calls : List Call) : Prop where
  unique : ∀ planId other, CreatedFor config ref calls planId → CreatedFor config ref calls other → planId = other
  repeats : ∀ earlier call between again later planId,
    calls = earlier ++ call :: (between ++ again :: later) → Creates config (run config earlier) ref call planId →
    Call.asksFor ref again → Repeats config (run config (earlier ++ call :: between)) again

/-- The foreign identities as a replay of the log builds them. -/
def reapplied (env : Env) (db : Database) : Database :=
  (Projections.applyEvents env db.events.rows Database.empty).2

/-- The plan that was created for the identity is found by it, now and after a replay. -/
def MappingSurvives (config : Config) (ref : String × String × String) (calls : List Call) : Prop :=
  ∀ planId, CreatedFor config ref calls planId → ∀ env,
    ExternalRefRepo.lookup (run config calls) ref.1 ref.2.1 ref.2.2 = some (toString planId) ∧
    ExternalRefRepo.lookup (reapplied env (run config calls)) ref.1 ref.2.1 ref.2.2 = some (toString planId)

/-- No request for the identity comes after one that created a plan for it. -/
def NoneAgain (config : Config) (ref : String × String × String) (calls : List Call) : Prop :=
  ∀ earlier call between again later planId, calls = earlier ++ call :: (between ++ again :: later) →
    Creates config (run config earlier) ref call planId → ¬Call.asksFor ref again

variable {calls : List Call} {ref : String × String × String} {call : Call} {planId other : PlanId}

theorem lookup_run {tenant kind externalId : String} :
    ExternalRefRepo.lookup (run config calls) tenant kind externalId = none := by
  unfold ExternalRefRepo.lookup
  rw [run_externalRefs]
  rfl

theorem not_repeats {config : Config} (hAsks : Call.asksFor ref call) : ¬Repeats config (run config calls) call := by
  cases call with
  | command env caller command actor =>
    cases command with
    | plan command =>
      cases command with
      | createPlan plan given =>
        cases given with
        | some given =>
          cases hAsks
          rintro ⟨hAccepted, hRows⟩
          cases hRun : Handler.handleWithRunOwner config env caller (.plan (.createPlan plan (some _))) actor
              (run config calls) with
          | mk outcome after =>
          rw [hRun] at hAccepted hRows
          cases outcome with
          | error e => cases hAccepted
          | ok answer => exact Handler.createPlan_logs lookup_run hRun hRows
        | none => cases hAsks
      | _ => cases hAsks
    | _ => cases hAsks
  | _ => cases hAsks

theorem Creates.planId_unique {config : Config} {db : Database} (h : Creates config db ref call planId) (h' : Creates config db ref call other) :
    planId = other := by
  obtain ⟨hAsks, envelope, hMem, hNew, plan, hPlan, rfl⟩ := h
  obtain ⟨_, envelope', hMem', hNew', plan', hPlan', rfl⟩ := h'
  cases call with
  | command env caller command actor =>
    rw [Handler.handle_planCreated hNew hPlan hMem, Handler.handle_planCreated hNew' hPlan' hMem']
  | _ => cases hAsks

/-- Where no request comes after a creation, there is one creation at most. -/
theorem NoneAgain.unique {config : Config}
    (h : NoneAgain config ref calls) (hCreated : CreatedFor config ref calls planId)
    (hOther : CreatedFor config ref calls other) : planId = other := by
  obtain ⟨earlier, call, later, hCalls, hCreates⟩ := hCreated
  obtain ⟨earlier', call', later', hCalls', hCreates'⟩ := hOther
  rcases append_eq_append_iff.mp (hCalls.symm.trans hCalls') with ⟨between, rfl, hRest⟩ | ⟨between, rfl, hRest⟩
  · cases between with
    | nil =>
      rw [append_nil] at hCreates'
      cases hRest
      exact hCreates.planId_unique hCreates'
    | cons first between =>
      cases hRest
      exact absurd hCreates'.1 (h earlier call between call' later' planId hCalls hCreates)
  · cases between with
    | nil =>
      rw [append_nil] at hCreates
      cases hRest
      exact hCreates.planId_unique hCreates'
    | cons first between =>
      cases hRest
      exact absurd hCreates.1 (h earlier' call' between call later other hCalls' hCreates')

/-- A plan is created once for a foreign identity exactly when nobody asks for it again,
and a mapping survives exactly when there is nothing to map. -/
theorem created_once_iff (config : Config) (ref : String × String × String) (calls : List Call) :
    (CreatedOnce config ref calls ↔ NoneAgain config ref calls) ∧
      (CreatedOnce config ref calls ∧ MappingSurvives config ref calls ↔ ∀ planId, ¬CreatedFor config ref calls planId) := by
  have hOnce : CreatedOnce config ref calls ↔ NoneAgain config ref calls := by
    constructor
    · intro h earlier call between again later planId hCalls hCreates hAsks
      exact not_repeats hAsks (h.repeats earlier call between again later planId hCalls hCreates hAsks)
    · intro h
      refine ⟨fun planId other => h.unique, ?_⟩
      intro earlier call between again later planId hCalls hCreates hAsks
      exact absurd hAsks (h earlier call between again later planId hCalls hCreates)
  refine ⟨hOnce, ?_⟩
  constructor
  · rintro ⟨_, hMapped⟩ planId hCreated
    have hFound := (hMapped planId hCreated ⟨0, fun _ => 0⟩).1
    rw [lookup_run] at hFound
    cases hFound
  · intro hNone
    refine ⟨hOnce.mpr ?_, fun planId hCreated => absurd hCreated (hNone planId)⟩
    intro earlier call between again later planId hCalls hCreates
    exact absurd ⟨earlier, call, between ++ again :: later, hCalls, hCreates⟩ (hNone planId)

private def requestFor (n : Nat) : Call :=
  .command (nthEnv n) .internal (.plan (.createPlan (NewPlan.new "plan" ⟨0⟩ .anyUser) (some ("omc", "plan", "1")))) .anyUser

private def createdPlans (db : Database) : List PlanId := db.events.rows.filterMap fun envelope =>
  match envelope.payload with
  | .plan (.planCreated plan) => some plan.id
  | _ => none

private theorem mem_createdPlans {db : Database} : planId ∈ createdPlans db ↔
    ∃ envelope ∈ db.events.rows, ∃ plan, envelope.payload = .plan (.planCreated plan) ∧ plan.id = planId := by
  unfold createdPlans
  rw [mem_filterMap]
  refine exists_congr fun envelope => and_congr_right fun _ => ?_
  constructor
  · intro h
    split at h
    · rename_i plan hPlan
      cases h
      exact ⟨plan, hPlan, rfl⟩
    · cases h
  · rintro ⟨plan, hPlan, rfl⟩
    rw [hPlan]

theorem external_ref_creates_twice : ¬CreatedOnce engineConfig ("omc", "plan", "1") [requestFor 0, requestFor 1] := by
  have hCreates : ∀ earlier n planId, planId ∈ createdPlans (serve engineConfig (run engineConfig earlier) (requestFor n)) →
      planId ∉ createdPlans (run engineConfig earlier) →
      Creates engineConfig (run engineConfig earlier) ("omc", "plan", "1") (requestFor n) planId := by
    intro earlier n planId hMem hNew
    obtain ⟨envelope, hLogged, hPlan⟩ := mem_createdPlans.mp hMem
    exact ⟨rfl, envelope, hLogged, fun hOld => hNew (mem_createdPlans.mpr ⟨envelope, hOld, hPlan⟩), hPlan⟩
  intro h
  have hFirst := hCreates [] 0 ((Handler.builderEnv (nthEnv 0)).fresh 0) (by decide +kernel) (by decide +kernel)
  have hSecond := hCreates [requestFor 0] 1 ((Handler.builderEnv (nthEnv 1)).fresh 0) (by decide +kernel)
    (by decide +kernel)
  have hSame := h.unique _ _ ⟨[], _, [requestFor 1], rfl, hFirst⟩ ⟨[requestFor 0], _, [], rfl, hSecond⟩
  exact absurd hSame (by decide +kernel)

end Server
end Daruma
