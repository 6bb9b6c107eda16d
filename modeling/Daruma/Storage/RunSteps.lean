import Daruma.Storage.ClaimSteps
import Daruma.Storage.RunRepo

/-! How events and terminations change the ending and the steps of a run. -/
namespace Daruma

open List KeyedTable
open EventEnvelope (payload)

def Database.runEnding (db : Database) (id : RunId) : Option (RunStatus × Option String) :=
  (db.runs.find? id).map fun run => (run.status, run.outcome)

def Database.stepsOf (db : Database) (id : RunId) : List RunStep := db.runSteps.filter fun step => step.runId = id

def RunEvent.writes : RunEvent → Option RunId
  | .runStarted run => some run.id
  | .runStepStarted runId .. | .runStepFinished runId .. | .runCompleted runId .. | .runFailed runId ..
  | .runAborted runId .. => some runId
  | _ => none

def EndedAs (id : RunId) (ending : RunStatus × Option String) (steps : List RunStep) (db : Database) : Prop :=
  db.runEnding id = some ending ∧ db.stepsOf id = steps

namespace RunRepo

variable {db : Database} {id runId : RunId} {f : Run → Run}

theorem runEnding_updateRun (hId : ∀ run, (f run).id = run.id) :
    (updateRun db runId f).runEnding id = (db.runs.find? id).map fun run =>
      if runId = id then ((f run).status, (f run).outcome) else (run.status, run.outcome) := by
  unfold Database.runEnding updateRun
  rw [find?_modify _ _ _ _ hId]
  split
  · rename_i hIs
    rw [Option.map_map]
    rfl
  · rfl

theorem runEnding_updateRun_of_ne (hOther : runId ≠ id) (hId : ∀ run, (f run).id = run.id) :
    (updateRun db runId f).runEnding id = db.runEnding id := by
  rw [runEnding_updateRun hId, Database.runEnding]
  simp only [if_neg hOther]

theorem runEnding_updateRun_same (hId : ∀ run, (f run).id = run.id)
    (hEnding : ∀ run, (f run).status = run.status ∧ (f run).outcome = run.outcome) :
    (updateRun db runId f).runEnding id = db.runEnding id := by
  rw [runEnding_updateRun hId, Database.runEnding]
  congr 1
  funext run
  rw [(hEnding run).1, (hEnding run).2, ite_self]

theorem latestOpen_ok {isOpen : RunStep → Bool} {rows : List (RunStep × Nat)} {found : RunStep × Nat}
    (h : latestOpen isOpen rows = some found) : found ∈ rows ∧ isOpen found.1 = true := by
  induction rows with
  | nil => cases h
  | cons row rest ih =>
    obtain ⟨step, n⟩ := row
    unfold latestOpen at h
    split at h
    · rename_i later hLater
      split at h
      · rename_i hFirst
        cases h
        exact ⟨mem_cons_self, (Bool.and_eq_true_iff.mp hFirst).1⟩
      · cases h
        exact ⟨mem_cons_of_mem _ (ih hLater).1, (ih hLater).2⟩
    · split at h
      · rename_i hFirst
        cases h
        exact ⟨mem_cons_self, hFirst⟩
      · cases h

theorem filter_set {Row : Type} {test : Row → Bool} {rows : List Row} {n : Nat} {old new : Row}
    (hOld : rows[n]? = some old) (hOldOut : test old = false) (hNewOut : test new = false) :
    (rows.set n new).filter test = rows.filter test := by
  induction rows generalizing n with
  | nil => rfl
  | cons row rest ih =>
    cases n with
    | zero =>
      obtain rfl := Option.some.inj hOld
      simp [hOldOut, hNewOut]
    | succ n => simp [filter_cons, ih hOld]

variable {taskId : TaskId} {outcome : RunOutcome}

theorem stepsOf_finishStepRow (hOther : runId ≠ id) {instant : Timestamp} :
    (finishStepRow db runId taskId outcome instant).stepsOf id = db.stepsOf id := by
  unfold finishStepRow
  dsimp only
  split
  · rename_i step row hOpen
    obtain ⟨hRow, hStep⟩ := latestOpen_ok hOpen
    simp only [Bool.and_eq_true, decide_eq_true_eq] at hStep
    have hOut : decide (step.runId = id) = false := decide_eq_false fun hIs => hOther (hStep.1.1.symm.trans hIs)
    exact filter_set (mk_mem_zipIdx_iff_getElem?.mp hRow) hOut hOut
  · simp [Database.stepsOf, hOther]

variable {instant : Timestamp}

theorem runEnding_finishStepRow : (finishStepRow db runId taskId outcome instant).runEnding id = db.runEnding id := by
  unfold finishStepRow
  dsimp only
  split <;> rfl

theorem stepsOf_insertStep (hOther : runId ≠ id) {instant : Timestamp} :
    (insertStep db runId taskId instant).stepsOf id = db.stepsOf id := by
  simp [Database.stepsOf, insertStep, hOther]

theorem runEnding_touchActivity : (touchActivity db runId instant).runEnding id = db.runEnding id :=
  runEnding_updateRun_same (fun _ => rfl) fun _ => ⟨rfl, rfl⟩

theorem applyRunEvent_other {event : RunEvent} (h : event.writes ≠ some id) :
    (applyRunEvent db event).runEnding id = db.runEnding id ∧ (applyRunEvent db event).stepsOf id = db.stepsOf id := by
  cases event with
  | runStarted run =>
    have hOther : run.id ≠ id := fun hIs => h (congrArg some hIs)
    refine ⟨?_, rfl⟩
    change Option.map _ ((db.runs.insertOrReplace _).find? id) = _
    rw [find?_insertOrReplace, if_neg hOther]
    rfl
  | runStepStarted runId taskId instant =>
    have hOther : runId ≠ id := fun hIs => h (congrArg some hIs)
    exact ⟨runEnding_touchActivity, stepsOf_insertStep hOther⟩
  | runStepFinished runId taskId outcome instant =>
    have hOther : runId ≠ id := fun hIs => h (congrArg some hIs)
    exact ⟨runEnding_finishStepRow.trans runEnding_touchActivity, stepsOf_finishStepRow hOther⟩
  | runCompleted runId | runFailed runId | runAborted runId =>
    have hOther : runId ≠ id := fun hIs => h (congrArg some hIs)
    exact ⟨runEnding_updateRun_of_ne hOther fun _ => rfl, rfl⟩
  | runUnresponsive | runStale => exact ⟨runEnding_updateRun_same (fun _ => rfl) fun _ => ⟨rfl, rfl⟩, rfl⟩
  | _ => exact ⟨rfl, rfl⟩

theorem endRun_again {status : RunStatus} {reason : String} (h : db.runEnding id = some (status, some reason)) :
    (updateRun db id (endRun status reason instant)).runEnding id = db.runEnding id := by
  have hEnded : (updateRun db id (endRun status reason instant)).runEnding id = (db.runs.find? id).map fun run =>
      if id = id then (status, some reason) else (run.status, run.outcome) := runEnding_updateRun fun _ => rfl
  obtain ⟨run, hFound, _⟩ := Option.map_eq_some_iff.mp h
  rw [hEnded, h, hFound, Option.map_some, if_pos rfl]

end RunRepo

namespace AgentClaimRepo

variable {db : Database} {status : RunStatus} {reason : String} {endedAt : Timestamp}

variable {ended : List Run} {claims : AgentClaims} {claim row : AgentClaim} {envelopes stored : List EventEnvelope}
  {db' : Database} {env : Env} {actor : Actor} {requester : AgentId} {isAdmin : Bool}

theorem endRuns_ending (id : RunId) : (endRuns db status reason endedAt ended).1.runEnding id = db.runEnding id ∨
      (∃ run ∈ ended, run.id = id) ∧ (endRuns db status reason endedAt ended).1.runEnding id =
        (db.runs.find? id).map fun _ => (status, some reason) := by
  induction ended generalizing db with
  | nil => exact .inl rfl
  | cons first rest ih =>
    have hFind : ∀ f : Run → Run, (∀ run, (f run).id = run.id) → (db.runs.modify first.id f).find? id =
        if first.id = id then (db.runs.find? id).map f else db.runs.find? id :=
      fun f hId => find?_modify _ _ _ f hId
    unfold endRuns
    dsimp only
    rcases ih with hSame | ⟨⟨run, hRun, hIs⟩, hEnded⟩
    · rw [hSame, Database.runEnding]
      dsimp only
      rw [hFind]
      · split
        · rename_i hFirst
          rw [Option.map_map]
          exact .inr ⟨⟨first, mem_cons_self, hFirst⟩, rfl⟩
        · exact .inl rfl
      · exact fun _ => rfl
    · refine .inr ⟨⟨run, mem_cons_of_mem _ hRun, hIs⟩, ?_⟩
      rw [hEnded]
      dsimp only
      rw [hFind]
      · split
        · rw [Option.map_map]
          rfl
        · rfl
      · exact fun _ => rfl

def runOwnerOf (db : Database) (id : RunId) : Option AgentId := (db.runClaimOwners.find? id).map RunClaimOwner.agentId

/-- A claim that ends with a run: one bound to it. A run without a recorded owner
also takes the unbound claims of its agent on its open steps. -/
def EndsWith (db : Database) (run : Run) (claim : AgentClaim) : Prop :=
  claim.runId = some run.id ∨ (runOwnerOf db run.id = none ∧ claim.runId = none ∧ claim.agentId = run.agentId ∧
    run.startedAt ≤ claim.acquiredAt ∧ ∃ step ∈ db.runSteps, step.runId = run.id ∧ step.taskId = claim.taskId ∧
      step.finishedAt = none)

/-- What the failure or the abort of a run on behalf of an agent does. -/
structure RunTerminated (db : Database) (requester : AgentId) (isAdmin : Bool) (run : Run)
    (status : RunStatus) (reason : String) (db' : Database) : Prop where
  stored : db.runs.find? run.id = some run
  active : run.status = .active
  permitted : isAdmin = true ∨ runOwnerOf db run.id = some requester
  claims : ∀ claim, claim ∈ db'.agentClaims ↔ claim ∈ db.agentClaims ∧ ¬EndsWith db run claim
  ending : db'.runEnding run.id = some (status, some reason)
  others : ∀ id, id ≠ run.id → db'.runEnding id = db.runEnding id

theorem mem_deleteSelected_filter {test : AgentClaim → Bool} :
    claim ∈ (deleteSelected claims (claims.rows.filter test)).1 ↔ claim ∈ claims ∧ test claim = false := by
  simp only [mem_deleteSelected, List.mem_filter, KeyedTable.mem_rows]
  constructor
  · rintro ⟨hClaim, hKept⟩
    exact ⟨hClaim, Bool.eq_false_iff.mpr fun hTest => hKept claim ⟨hClaim, hTest⟩ ⟨rfl, rfl⟩⟩
  · rintro ⟨hClaim, hTest⟩
    refine ⟨hClaim, fun picked hPicked hSame => ?_⟩
    rw [KeyedTable.eq_of_key_eq hClaim hPicked.1 hSame.1, hPicked.2] at hTest
    cases hTest

theorem terminalRun_cases {id : RunId} {instant : Timestamp}
    (h : terminalRun envelopes = some (id, status, instant, reason)) :
    (status = .failed ∧ .run (.runFailed id reason instant) ∈ envelopes.map payload) ∨
      (status = .aborted ∧ .run (.runAborted id reason instant) ∈ envelopes.map payload) := by
  obtain ⟨envelope, hMem, hIs⟩ := exists_of_findSome?_eq_some h
  have hPayload := mem_map_of_mem (f := payload) hMem
  split at hIs
  · rename_i hFailed
    cases hIs
    exact .inl ⟨rfl, hFailed ▸ hPayload⟩
  · rename_i hAborted
    cases hIs
    exact .inr ⟨rfl, hAborted ▸ hPayload⟩
  · cases hIs

theorem recordRunTerminal_spec (h : recordRunTerminal db env actor requester isAdmin envelopes = .ok (stored, db')) :
    ∃ run status instant reason, terminalRun envelopes = some (run.id, status, instant, reason) ∧
      RunTerminated db requester isAdmin run status reason db' := by
  unfold recordRunTerminal at h
  split at h
  · cases h
  rename_i id status instant reason hTerminal
  split at h
  · cases h
  rename_i run hFound
  have hId : run.id = id := key_of_find? hFound
  subst hId
  dsimp only at h
  split at h
  · cases h
  rename_i hActive
  split at h
  · cases h
  rename_i hOwned
  split at h
  · cases h
  rename_i hUnowned
  obtain ⟨_, _, rfl⟩ := (appendBatch_ok h).2.2
  refine ⟨run, status, instant, reason, hTerminal, hFound, not_not.mp hActive, ?_, fun claim => ?_, ?_, fun id hOther => ?_⟩
  · unfold runOwnerOf
    cases hOwner : (db.runClaimOwners.find? run.id).map RunClaimOwner.agentId with
    | none => simpa [hOwner] using hUnowned
    | some owner =>
      rw [hOwner] at hOwned
      by_cases hAdmin : isAdmin = true
      · exact .inl hAdmin
      · exact .inr (by simpa [hAdmin] using hOwned)
  · refine mem_deleteSelected_filter.trans (and_congr_right fun _ => ?_)
    rw [Bool.eq_false_iff, Ne, not_congr]
    simp [EndsWith, runOwnerOf, and_assoc]
  · rw [Database.runEnding]
    dsimp only
    rw [find?_modify, if_pos rfl, hFound]
    · rfl
    · exact fun _ => rfl
  · rw [Database.runEnding]
    dsimp only
    rw [find?_modify, if_neg (Ne.symm hOther)]
    · rfl
    · exact fun _ => rfl

abbrev activeRuns (db : Database) (planId : PlanId) : List Run :=
  db.runs.rows.filter fun run => run.planId = planId && run.status = .active

theorem mem_activeRuns {planId : PlanId} {run : Run} :
    run ∈ activeRuns db planId ↔ db.runs.find? run.id = some run ∧ run.planId = planId ∧ run.status = .active := by
  rw [List.mem_filter, Bool.and_eq_true, decide_eq_true_eq, decide_eq_true_eq]
  refine and_congr_left fun _ => ⟨find?_of_mem, mem_of_find?⟩

structure PlanTerminated (db : Database) (requester : Option AgentId) (isAdmin : Bool) (planId : PlanId)
    (status : RunStatus) (reason : String) (db' : Database) : Prop where
  permitted : ownsEveryRun db requester isAdmin (activeRuns db planId) = true
  claims : ∀ claim, claim ∈ db'.agentClaims ↔
    claim ∈ db.agentClaims ∧ ∀ run ∈ activeRuns db planId, claim.runId ≠ some run.id
  endings : ∀ id, db'.runEnding id = db.runEnding id ∨
    ((∃ run ∈ activeRuns db planId, run.id = id) ∧ db'.runEnding id = some (status, some reason))

theorem recordPlanTerminal_spec {requester : Option AgentId}
    (h : recordPlanTerminal db env actor requester isAdmin envelopes = .ok (stored, db')) :
    ∃ planId status reason endedAt, terminalPlan env.now envelopes = some (planId, status, reason, endedAt) ∧
      PlanTerminated db requester isAdmin planId status reason db' := by
  unfold recordPlanTerminal at h
  split at h
  · cases h
  rename_i planId status reason endedAt hTerminal
  dsimp only at h
  split at h
  · cases h
  rename_i hOwned
  have hSame := (appendBatch_ok h).2.2
  refine ⟨planId, status, reason, endedAt, hTerminal, by simpa using hOwned, fun claim => ?_, fun id => ?_⟩
  · rw [appendBatch_agentClaims h]
    exact mem_endRuns
  · obtain ⟨_, _, rfl⟩ := hSame
    refine (endRuns_ending id).imp_right fun ⟨hEnded, hEnding⟩ => ⟨hEnded, hEnding.trans ?_⟩
    obtain ⟨run, hRun, rfl⟩ := hEnded
    rw [(mem_activeRuns.mp hRun).1]
    rfl

/-- The batch was stored with the releases of generations that are gone. -/
def StoredWithReleases (env : Env) (actor : Actor) (envelopes stored : List EventEnvelope) (claims : AgentClaims) :
    Prop :=
  ∃ released, stored.map payload =
      envelopes.map payload ++ (releasedEvents env actor released).map payload ∧
    ∀ claim ∈ released, ∀ row ∈ claims, ¬SameGeneration row claim

theorem gone_of_deleteSelected {selected : List AgentClaim}
    (h : claim ∈ (deleteSelected claims selected).2) (hRow : row ∈ (deleteSelected claims selected).1) :
    ¬SameGeneration row claim :=
  (mem_deleteSelected.mp hRow).2 claim (selected_of_released h)

theorem gone_of_endRuns (h : claim ∈ (endRuns db status reason endedAt ended).2)
    (hRow : row ∈ (endRuns db status reason endedAt ended).1.agentClaims) : ¬SameGeneration row claim := by
  induction ended generalizing db with
  | nil => exact absurd h not_mem_nil
  | cons first rest ih =>
    unfold endRuns at h hRow
    dsimp only at h hRow
    rcases mem_append.mp h with hFirst | hRest
    · exact gone_of_deleteSelected hFirst (mem_endRuns.mp hRow).1
    · exact ih hRest hRow

theorem storedWithReleases_of_appendBatch {before : Database} {released : List AgentClaim}
    (h : appendBatch before (envelopes ++ releasedEvents env actor released) = .ok (stored, db'))
    (hGone : ∀ claim ∈ released, ∀ row ∈ before.agentClaims, ¬SameGeneration row claim) :
    StoredWithReleases env actor envelopes stored db'.agentClaims := by
  refine ⟨released, (appendBatch_ok h).1.trans map_append, ?_⟩
  rw [appendBatch_agentClaims h]
  exact hGone

theorem recordRunTerminal_releases
    (h : recordRunTerminal db env actor requester isAdmin envelopes = .ok (stored, db')) :
    StoredWithReleases env actor envelopes stored db'.agentClaims := by
  unfold recordRunTerminal at h
  split at h
  · cases h
  split at h
  · cases h
  dsimp only at h
  split at h
  · cases h
  split at h
  · cases h
  split at h
  · cases h
  exact storedWithReleases_of_appendBatch h fun claim hClaim row hRow => gone_of_deleteSelected hClaim hRow

theorem recordPlanTerminal_releases {requester : Option AgentId}
    (h : recordPlanTerminal db env actor requester isAdmin envelopes = .ok (stored, db')) :
    StoredWithReleases env actor envelopes stored db'.agentClaims := by
  unfold recordPlanTerminal at h
  split at h
  · cases h
  dsimp only at h
  split at h
  · cases h
  exact storedWithReleases_of_appendBatch h fun claim hClaim row hRow => gone_of_endRuns hClaim hRow

end AgentClaimRepo
end Daruma
