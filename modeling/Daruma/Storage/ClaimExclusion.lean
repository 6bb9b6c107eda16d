import Daruma.Storage.ClaimSteps

/-! Mutual exclusion of claims. Every call but the unguarded `acquire` either
only deletes rows or inserts one row while no other agent has a live one; that
is all the invariant needs to know about a call. -/
namespace Daruma

open KeyedTable
open AgentClaim (live_of_le live)

namespace AgentClaimRepo

open Transition

inductive GrantEffect (now : Timestamp) (before : AgentClaims) : AgentClaims → Prop where
  | unchanged : GrantEffect now before before
  | granted (row : AgentClaim) (hFree : heldByOther before now row.agentId row.taskId = false) :
      GrantEffect now before (before.upsert row)

/-- What a guarded call can do to the claim table. -/
inductive ClaimEffect (now : Timestamp) (before after : AgentClaims) : Prop where
  | removed (h : ∀ row ∈ after, row ∈ before)
  | grant (h : GrantEffect now before after)

variable {claims claims' : AgentClaims} {now expiresAt later : Timestamp} {agentId : AgentId} {taskId : TaskId}
  {row : AgentClaim} {db db' : Database} {claimId claimId' : ClaimId} {ttl : Duration} {env : Env} {actor : Actor}
  {run : Option (RunId × PlanId)} {call : ClaimCall}

theorem heldByOther_eq_false : heldByOther claims now agentId taskId = false ↔
      ∀ row ∈ claims, row.taskId = taskId → now ≤ row.expiresAt → row.agentId = agentId := by
  simp only [heldByOther, List.any_eq_false, mem_rows, live, Bool.and_eq_true,
    decide_eq_true_eq, not_and, not_not, and_imp]

theorem compareAndSet_ok (h : compareAndSet claims now row = .ok (some claims')) :
    heldByOther claims now row.agentId row.taskId = false ∧
      ∃ runId, claims' = claims.upsert { row with runId := runId } := by
  unfold compareAndSet at h
  split at h
  · cases h
  · rename_i hFree
    split at h
    · cases h
    · refine ⟨by simpa using hFree, ?_⟩
      split at h
      · simp only [Except.ok.injEq, Option.some.injEq] at h
        exact ⟨row.runId, h.symm⟩
      · simp only [Except.ok.injEq, Option.some.injEq] at h
        exact ⟨_, h.symm⟩

theorem compareAndSet_effect
    (h : compareAndSet claims now row = .ok (some claims')) : GrantEffect now claims claims' := by
  obtain ⟨hFree, runId, rfl⟩ := compareAndSet_ok h
  exact .granted { row with runId := runId } hFree

theorem acquireUntil_effect (h : acquireUntil db now agentId taskId claimId expiresAt = .ok db') :
    GrantEffect now db.agentClaims db'.agentClaims := by
  unfold acquireUntil at h
  split at h
  · cases h
    exact .unchanged
  · rename_i hGuard
    have hFree : heldByOther db.agentClaims now agentId taskId = false := by
      simp only [Bool.or_eq_true, decide_eq_true_eq, not_or] at hGuard
      exact Bool.eq_false_iff.mpr hGuard.2
    split at h
    · rename_i old hOld
      have hKey : old.key = (agentId, taskId) := key_of_find? hOld
      split at h
      · cases h
        have hAgent : old.agentId = agentId := congrArg Prod.fst hKey
        have hTask : old.taskId = taskId := congrArg Prod.snd hKey
        exact .granted { old with acquiredAt := now, expiresAt := expiresAt }
          (by simpa [hAgent, hTask] using hFree)
      · cases h
        exact .unchanged
    · dsimp only at h
      split at h
      · cases h
      · cases h
        exact .granted _ hFree

theorem tryAcquire_effect {outcome : ClaimOutcome}
    (h : tryAcquire db now later agentId taskId claimId ttl = .ok (outcome, db')) :
    GrantEffect now db.agentClaims db'.agentClaims := by
  unfold tryAcquire at h
  dsimp only at h
  split at h
  · cases h
  · rename_i claims hSet
    cases h
    exact compareAndSet_effect hSet
  · split at h <;> cases h <;> exact .unchanged

theorem tryAcquireBoundRecorded_effect {outcome : RecordedClaimOutcome}
    (h : tryAcquireBoundRecorded db env actor agentId taskId claimId expiresAt run =
      .ok (outcome, db')) : GrantEffect env.now db.agentClaims db'.agentClaims := by
  unfold tryAcquireBoundRecorded at h
  split at h
  · cases h
  · split at h
    · cases h
    · split at h
      · cases h
      · dsimp only at h
        split at h
        · cases h
        · rename_i claims hSet
          split at h
          · cases h
          · rename_i stored appended hAppend
            cases h
            rw [appendOn_agentClaims hAppend]
            exact compareAndSet_effect hSet
        · split at h <;> cases h <;> exact .unchanged

theorem recordRunStarted_effect {owner : AgentId} {envelopes stored : List EventEnvelope}
    (h : recordRunStarted db owner envelopes = .ok (stored, db')) :
    GrantEffect now db.agentClaims db'.agentClaims := by
  unfold recordRunStarted at h
  dsimp only at h
  split at h
  · cases h
  · split at h
    · cases h
    · rw [appendBatch_agentClaims h]
      exact .unchanged

theorem releaseRecorded_effect {stored : Option EventEnvelope}
    (h : releaseRecorded db env actor agentId taskId claimId = .ok (stored, db')) :
    ClaimEffect env.now db.agentClaims db'.agentClaims := by
  unfold releaseRecorded at h
  dsimp only at h
  split at h
  · cases h
    exact .grant .unchanged
  · split at h
    · cases h
    · rename_i event appended hAppend
      cases h
      rw [appendOn_agentClaims hAppend]
      exact .removed fun row hRow => (mem_deleteExact.mp hRow).1

theorem applyEvent_effect {envelope : EventEnvelope}
    (h : applyEvent db now envelope = .ok db') : ClaimEffect now db.agentClaims db'.agentClaims := by
  unfold applyEvent at h
  split at h
  · exact .grant (acquireUntil_effect h)
  · cases h
    exact .grant .unchanged
  · cases h
    exact .removed fun row hRow => (mem_deleteExact.mp hRow).1
  · cases h
    exact .removed fun row hRow => (mem_filter.mp hRow).1
  · cases h
    exact .grant .unchanged

def ClaimCall.Unguarded : ClaimCall → Prop
  | .acquire .. => True
  | _ => False

/-- A call that the exclusion result allows: any but the unguarded one. -/
def ClaimCall.Guarded (_ : Database) (call : ClaimCall) : Prop := ¬call.Unguarded

theorem map_snd_ok {α : Type} {result : Result (α × Database)}
    (h : result.map Prod.snd = .ok db') : ∃ value, result = .ok (value, db') := by
  cases result with
  | error e => cases h
  | ok pair =>
    cases h
    exact ⟨pair.1, rfl⟩

theorem ClaimCall.perform_effect (hGuarded : ¬call.Unguarded)
    (h : call.perform db = .ok db') : ClaimEffect call.captured db.agentClaims db'.agentClaims := by
  cases call with
  | acquire => exact absurd trivial hGuarded
  | tryAcquire =>
    obtain ⟨_, hOk⟩ := map_snd_ok h
    exact .grant (tryAcquire_effect hOk)
  | tryAcquireBoundRecorded =>
    obtain ⟨_, hOk⟩ := map_snd_ok h
    exact .grant (tryAcquireBoundRecorded_effect hOk)
  | recordRunStarted =>
    obtain ⟨_, hOk⟩ := map_snd_ok h
    exact .grant (recordRunStarted_effect hOk)
  | recordRunTerminal =>
    obtain ⟨_, hOk⟩ := map_snd_ok h
    exact .removed (recordRunTerminal_removal hOk).kept
  | recordPlanTerminal =>
    obtain ⟨_, hOk⟩ := map_snd_ok h
    exact .removed (recordPlanTerminal_removal hOk).kept
  | recordTaskLifecycle =>
    obtain ⟨_, hOk⟩ := map_snd_ok h
    exact .removed (recordTaskLifecycle_removal hOk).kept
  | release | sweepExpired =>
    cases h
    exact .removed fun row hRow => (mem_filter.mp hRow).1
  | releaseRecorded =>
    obtain ⟨_, hOk⟩ := map_snd_ok h
    exact releaseRecorded_effect hOk
  | applyEvent => exact applyEvent_effect h
  | sweepExpiredRecorded =>
    obtain ⟨_, hOk⟩ := map_snd_ok h
    unfold AgentClaimRepo.sweepExpiredRecorded at hOk
    dsimp only at hOk
    rw [appendBatch_agentClaims hOk]
    exact .removed fun row hRow => (mem_deleteExpired.mp hRow).1

/-- Of two agents' rows on one task, at most one has not expired. -/
def Exclusive (world : ClaimWorld) : Prop :=
  ∀ left ∈ world.db.agentClaims, ∀ right ∈ world.db.agentClaims, left.taskId = right.taskId →
    left.live world.clock → right.live world.clock → left.agentId = right.agentId

theorem Exclusive.of_effect {clock : Timestamp} (hLe : now ≤ clock)
    (h : ClaimEffect now db.agentClaims db'.agentClaims) (hInv : Exclusive ⟨db, clock⟩) : Exclusive ⟨db', clock⟩ := by
  intro left hLeft right hRight hTask hLeftLive hRightLive
  dsimp only at hLeft hRight
  rcases h with hSub | hGrant
  · exact hInv left (hSub left hLeft) right (hSub right hRight) hTask hLeftLive hRightLive
  generalize db'.agentClaims = claims' at hGrant hLeft hRight
  cases hGrant with
  | unchanged => exact hInv left hLeft right hRight hTask hLeftLive hRightLive
  | granted row hFree =>
    rw [heldByOther_eq_false] at hFree
    rw [mem_upsert] at hLeft hRight
    rcases hLeft with rfl | ⟨hLeft, _⟩ <;> rcases hRight with rfl | ⟨hRight, _⟩
    · rfl
    · exact (hFree right hRight hTask.symm (live_of_le hLe hRightLive)).symm
    · exact hFree left hLeft hTask (live_of_le hLe hLeftLive)
    · exact hInv left hLeft right hRight hTask hLeftLive hRightLive

theorem Exclusive.step : Preserves (ClaimStep ClaimCall.Guarded) Exclusive := by
  intro before after hStep hInv
  cases hStep with
  | call call hAllowed hNow h => exact hInv.of_effect hNow (ClaimCall.perform_effect hAllowed h)
  | tick hLe =>
    intro left hLeft right hRight hTask hLeftLive hRightLive
    refine hInv left hLeft right hRight hTask ?_ ?_
    · simpa [live] using live_of_le hLe hLeftLive
    · simpa [live] using live_of_le hLe hRightLive
  | elsewhere h =>
    intro left hLeft right hRight
    dsimp only at hLeft hRight
    rw [h] at hLeft hRight
    exact hInv left hLeft right hRight

/-- The claim that a call reports as acquired, or puts in the table by replay. -/
def ClaimCall.grant (db : Database) : ClaimCall → Option (AgentId × TaskId)
  | .tryAcquire now later agentId taskId claimId ttl =>
    match AgentClaimRepo.tryAcquire db now later agentId taskId claimId ttl with
    | .ok (.acquired _ _, _) => some (agentId, taskId)
    | _ => none
  | .tryAcquireBoundRecorded env actor agentId taskId claimId expiresAt run =>
    match AgentClaimRepo.tryAcquireBoundRecorded db env actor agentId taskId claimId expiresAt run with
    | .ok (.acquired _ _ _, _) => some (agentId, taskId)
    | _ => none
  | .applyEvent now envelope =>
    match envelope.payload, AgentClaimRepo.applyEvent db now envelope with
    | .claim (.agentClaimed agentId taskId (some _) _), .ok db' =>
      if db'.agentClaims = db.agentClaims then none else some (agentId, taskId)
    | _, _ => none
  | _ => none

theorem tryAcquire_acquired
    (h : tryAcquire db now later agentId taskId claimId ttl = .ok (.acquired expiresAt claimId', db')) :
    heldByOther db.agentClaims now agentId taskId = false := by
  unfold tryAcquire at h
  dsimp only at h
  split at h
  · cases h
  · rename_i claims hSet
    exact (compareAndSet_ok hSet).1
  · split at h <;> cases h

theorem tryAcquireBoundRecorded_acquired {expiresAt' : Timestamp} {event : EventEnvelope}
    (h : tryAcquireBoundRecorded db env actor agentId taskId claimId expiresAt run =
      .ok (.acquired expiresAt' claimId' event, db')) :
    heldByOther db.agentClaims env.now agentId taskId = false := by
  unfold tryAcquireBoundRecorded at h
  split at h
  · cases h
  · split at h
    · cases h
    · split at h
      · cases h
      · dsimp only at h
        split at h
        · cases h
        · rename_i claims hSet
          exact (compareAndSet_ok hSet).1
        · split at h <;> cases h

theorem acquireUntil_changed (h : acquireUntil db now agentId taskId claimId expiresAt = .ok db')
    (hChanged : db'.agentClaims ≠ db.agentClaims) : heldByOther db.agentClaims now agentId taskId = false := by
  unfold acquireUntil at h
  split at h
  · cases h
    exact absurd rfl hChanged
  · rename_i hGuard
    simp only [Bool.or_eq_true, decide_eq_true_eq, not_or] at hGuard
    exact Bool.eq_false_iff.mpr hGuard.2

theorem ClaimCall.grant_free (h : call.grant db = some (agentId, taskId)) :
    heldByOther db.agentClaims call.captured agentId taskId = false := by
  unfold ClaimCall.grant at h
  split at h
  · split at h
    · rename_i hOk
      cases h
      exact tryAcquire_acquired hOk
    · cases h
  · split at h
    · rename_i hOk
      cases h
      exact tryAcquireBoundRecorded_acquired hOk
    · cases h
  · split at h
    · rename_i hPayload hOk
      split at h
      · cases h
      · rename_i hChanged
        cases h
        unfold AgentClaimRepo.applyEvent at hOk
        rw [hPayload] at hOk
        exact acquireUntil_changed hOk hChanged
    · cases h
  · cases h

/-- In every interleaving of guarded calls that starts without claims, at most
one agent has a claim on a task that has not expired, and a call that grants a
claim finds no live claim of another agent. -/
theorem claim_mutual_exclusion {start finish : ClaimWorld} (hStart : start.db.agentClaims = KeyedTable.empty)
    (steps : Trace (ClaimStep ClaimCall.Guarded) start finish) :
    (∀ left ∈ finish.db.agentClaims, ∀ right ∈ finish.db.agentClaims, left.taskId = right.taskId →
      left.live finish.clock → right.live finish.clock → left.agentId = right.agentId) ∧
    ∀ (call : ClaimCall) (agentId : AgentId) (taskId : TaskId), call.captured ≤ finish.clock →
      call.grant finish.db = some (agentId, taskId) → ∀ held ∈ finish.db.agentClaims,
        held.taskId = taskId → held.live finish.clock → held.agentId = agentId := by
  have hInit : Exclusive start := by
    intro left hLeft
    rw [hStart] at hLeft
    exact absurd hLeft (not_mem_empty left)
  refine ⟨Exclusive.step.trace steps hInit, ?_⟩
  intro call agentId taskId hNow hGrant held hHeld hTask hLive
  exact heldByOther_eq_false.mp (ClaimCall.grant_free hGrant) held hHeld hTask
    (AgentClaim.live_of_le hNow hLive)

/-- The database after agent 1 acquired task 9 at instant 0. -/
private def oneClaim : Database :=
  { Database.empty with agentClaims := Database.empty.agentClaims.upsert ⟨⟨1⟩, ⟨9⟩, 0, 60, none, ⟨5⟩⟩ }

/-- While the claim of agent 1 is live, agent 2 is refused and agent 1 is the
only holder. -/
theorem claim_mutual_exclusion_one_holder :
    (∀ left ∈ oneClaim.agentClaims, ∀ right ∈ oneClaim.agentClaims, left.taskId = right.taskId →
      left.live 0 → right.live 0 → left.agentId = right.agentId) ∧
    ∀ (call : ClaimCall) (agentId : AgentId) (taskId : TaskId), call.captured ≤ 0 →
      call.grant oneClaim = some (agentId, taskId) → ∀ held ∈ oneClaim.agentClaims,
        held.taskId = taskId → held.live 0 → held.agentId = agentId :=
  @claim_mutual_exclusion ⟨Database.empty, 0⟩ ⟨oneClaim, 0⟩ rfl
    (.single (.call (.tryAcquire 0 0 ⟨1⟩ ⟨9⟩ ⟨5⟩ 60) (fun h => h) (Int.le_refl 0) rfl))

/-- The unguarded call gives two agents a live claim on one task. -/
theorem acquire_not_exclusive : ∃ finish : ClaimWorld, Trace (ClaimStep fun _ _ => True) ⟨Database.empty, 0⟩ finish ∧
      ∃ left ∈ finish.db.agentClaims, ∃ right ∈ finish.db.agentClaims, left.taskId = right.taskId ∧
        left.live finish.clock ∧ right.live finish.clock ∧ left.agentId ≠ right.agentId := by
  let first := (acquire Database.empty 0 ⟨1⟩ ⟨9⟩ ⟨5⟩ 60).2
  let second := (acquire first 0 ⟨2⟩ ⟨9⟩ ⟨6⟩ 60).2
  have steps : Trace (ClaimStep fun _ _ => True) ⟨Database.empty, 0⟩ ⟨second, 0⟩ :=
    .tail (.single (.call (.acquire 0 ⟨1⟩ ⟨9⟩ ⟨5⟩ 60) trivial (Int.le_refl 0) rfl))
      (.call (.acquire 0 ⟨2⟩ ⟨9⟩ ⟨6⟩ 60) trivial (Int.le_refl 0) rfl)
  exact ⟨⟨second, 0⟩, steps, ⟨⟨1⟩, ⟨9⟩, 0, 60, none, ⟨5⟩⟩, by decide,
    ⟨⟨2⟩, ⟨9⟩, 0, 60, none, ⟨6⟩⟩, by decide, rfl, by decide, by decide, by decide⟩

end AgentClaimRepo
end Daruma
