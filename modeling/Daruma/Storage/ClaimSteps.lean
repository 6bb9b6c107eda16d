import Daruma.Library.Transition
import Daruma.Storage.ClaimRepo

/-! Interleavings of claim calls. A call uses the instant it read when it
started, which may lie behind the clock when its statement runs; the rest of the
server may write every other table in between. -/
namespace Daruma

open List KeyedTable
namespace AgentClaimRepo

/-- The calls that write claims, each with the instant it read. -/
inductive ClaimCall where
  | acquire (now : Timestamp) (agentId : AgentId) (taskId : TaskId) (claimId : ClaimId) (ttl : Duration)
  | tryAcquire (now later : Timestamp) (agentId : AgentId) (taskId : TaskId) (claimId : ClaimId)
      (ttl : Duration)
  | tryAcquireBoundRecorded (env : Env) (actor : Actor) (agentId : AgentId) (taskId : TaskId)
      (claimId : ClaimId) (expiresAt : Timestamp) (run : Option (RunId × PlanId))
  | recordRunStarted (now : Timestamp) (ownerAgentId : AgentId) (envelopes : List EventEnvelope)
  | recordRunTerminal (env : Env) (actor : Actor) (authenticatedAgentId : AgentId) (isAdmin : Bool)
      (envelopes : List EventEnvelope)
  | recordPlanTerminal (env : Env) (actor : Actor) (authenticatedAgentId : Option AgentId)
      (isAdmin : Bool) (envelopes : List EventEnvelope)
  | recordTaskLifecycle (env : Env) (actor : Actor) (envelopes : List EventEnvelope)
  | release (now : Timestamp) (agentId : AgentId) (taskId : TaskId)
  | releaseRecorded (env : Env) (actor : Actor) (agentId : AgentId) (taskId : TaskId) (claimId : ClaimId)
  | applyEvent (now : Timestamp) (envelope : EventEnvelope)
  | sweepExpired (now : Timestamp)
  | sweepExpiredRecorded (env : Env) (actor : Actor) (selected : List AgentClaim)

namespace ClaimCall

def captured : ClaimCall → Timestamp
  | acquire now .. | tryAcquire now .. | recordRunStarted now .. | release now .. | applyEvent now _
  | sweepExpired now => now
  | tryAcquireBoundRecorded env .. | recordRunTerminal env .. | recordPlanTerminal env ..
  | recordTaskLifecycle env .. | releaseRecorded env .. | sweepExpiredRecorded env .. => env.now

/-- The database after a call that does not fail. A failed call writes nothing. -/
def perform (db : Database) : ClaimCall → Result Database
  | acquire now agentId taskId claimId ttl =>
    .ok (AgentClaimRepo.acquire db now agentId taskId claimId ttl).2
  | tryAcquire now later agentId taskId claimId ttl =>
    (AgentClaimRepo.tryAcquire db now later agentId taskId claimId ttl).map Prod.snd
  | tryAcquireBoundRecorded env actor agentId taskId claimId expiresAt run =>
    (AgentClaimRepo.tryAcquireBoundRecorded db env actor agentId taskId claimId expiresAt run).map
      Prod.snd
  | recordRunStarted _ ownerAgentId envelopes =>
    (AgentClaimRepo.recordRunStarted db ownerAgentId envelopes).map Prod.snd
  | recordRunTerminal env actor authenticatedAgentId isAdmin envelopes =>
    (AgentClaimRepo.recordRunTerminal db env actor authenticatedAgentId isAdmin envelopes).map Prod.snd
  | recordPlanTerminal env actor authenticatedAgentId isAdmin envelopes =>
    (AgentClaimRepo.recordPlanTerminal db env actor authenticatedAgentId isAdmin envelopes).map Prod.snd
  | recordTaskLifecycle env actor envelopes =>
    (AgentClaimRepo.recordTaskLifecycle db env actor envelopes).map Prod.snd
  | release _ agentId taskId => .ok (AgentClaimRepo.release db agentId taskId)
  | releaseRecorded env actor agentId taskId claimId =>
    (AgentClaimRepo.releaseRecorded db env actor agentId taskId claimId).map Prod.snd
  | applyEvent now envelope => AgentClaimRepo.applyEvent db now envelope
  | sweepExpired now => .ok (AgentClaimRepo.sweepExpired db now)
  | sweepExpiredRecorded env actor selected =>
    (AgentClaimRepo.sweepExpiredRecorded db env actor selected).map Prod.snd

end ClaimCall

/-- A database and the instant it is. -/
structure ClaimWorld where
  db : Database
  clock : Timestamp

/-- One step of an interleaving of calls that satisfy a condition. -/
inductive ClaimStep (allowed : Database → ClaimCall → Prop) : ClaimWorld → ClaimWorld → Prop where
  | call {db db' : Database} {clock : Timestamp} (call : ClaimCall) (hAllowed : allowed db call)
      (hNow : call.captured ≤ clock) (h : call.perform db = .ok db') :
      ClaimStep allowed ⟨db, clock⟩ ⟨db', clock⟩
  | tick {db : Database} {clock later : Timestamp} (h : clock ≤ later) :
      ClaimStep allowed ⟨db, clock⟩ ⟨db, later⟩
  | elsewhere {db db' : Database} {clock : Timestamp} (h : db'.agentClaims = db.agentClaims) :
      ClaimStep allowed ⟨db, clock⟩ ⟨db', clock⟩

@[simp] theorem mem_deleteExact {claims : AgentClaims} {agentId : AgentId} {taskId : TaskId}
    {claimId : ClaimId} {row : AgentClaim} :
    row ∈ deleteExact claims agentId taskId claimId ↔
      row ∈ claims ∧ ¬(row.key = (agentId, taskId) ∧ row.claimId = claimId) := by
  simp only [deleteExact, KeyedTable.mem_filter, AgentClaim.key, Prod.mk.injEq, Bool.not_eq_true',
    Bool.and_eq_false_iff, decide_eq_false_iff_not]
  tauto

def SameGeneration (left right : AgentClaim) : Prop :=
  left.key = right.key ∧ left.claimId = right.claimId

variable {selected : List AgentClaim} {claims : AgentClaims} {row claim : AgentClaim} {tasks : List TaskId}
  {runs : List Run} {db db' : Database} {status : RunStatus} {reason : String} {endedAt : Timestamp}
  {envelopes stored : List EventEnvelope} {env : Env} {actor : Actor} {isAdmin : Bool}

theorem mem_deleteSelected : row ∈ (deleteSelected claims selected).1 ↔
      row ∈ claims ∧ ∀ picked ∈ selected, ¬SameGeneration row picked := by
  induction selected generalizing claims with
  | nil => simp [deleteSelected]
  | cons picked rest ih =>
    have hTail : (deleteSelected claims (picked :: rest)).1 =
        (deleteSelected (deleteExact claims picked.agentId picked.taskId picked.claimId) rest).1 := by
      rw [deleteSelected]
      split <;> rfl
    rw [hTail, ih, mem_deleteExact]
    simp only [forall_mem_cons, SameGeneration, AgentClaim.key]
    tauto

theorem selected_of_released (h : claim ∈ (deleteSelected claims selected).2) : claim ∈ selected := by
  induction selected generalizing claims with
  | nil => exact absurd h not_mem_nil
  | cons first rest ih =>
    rw [deleteSelected] at h
    split at h
    · exact (mem_cons.mp h).elim (fun hSame => hSame ▸ mem_cons_self) fun hRest =>
        mem_cons_of_mem _ (ih hRest)
    · exact mem_cons_of_mem _ (ih h)

theorem exists_released_of_selected {picked : AgentClaim} (hRow : row ∈ claims) (hPicked : picked ∈ selected)
    (h : SameGeneration row picked) :
    ∃ released ∈ (deleteSelected claims selected).2, SameGeneration row released := by
  induction selected generalizing claims with
  | nil => cases hPicked
  | cons first rest ih =>
    rw [deleteSelected]
    by_cases hFirst : SameGeneration row first
    · have hHit : (claims.rows.any fun claim =>
          claim.key = first.key && claim.claimId = first.claimId) = true :=
        any_eq_true.mpr ⟨row, hRow, by simpa [SameGeneration] using hFirst⟩
      rw [if_pos hHit]
      exact ⟨first, mem_cons_self, hFirst⟩
    · have hRest : picked ∈ rest := by
        rcases mem_cons.mp hPicked with rfl | hRest
        · exact absurd h hFirst
        · exact hRest
      have hKept : row ∈ deleteExact claims first.agentId first.taskId first.claimId :=
        mem_deleteExact.mpr ⟨hRow, hFirst⟩
      obtain ⟨released, hReleased, hSame⟩ := ih hKept hRest
      refine ⟨released, ?_, hSame⟩
      split
      · exact mem_cons_of_mem _ hReleased
      · exact hReleased

theorem exists_released_of_deleted (hRow : row ∈ claims) (hGone : row ∉ (deleteSelected claims selected).1) :
    ∃ released ∈ (deleteSelected claims selected).2, SameGeneration row released := by
  rw [mem_deleteSelected] at hGone
  push Not at hGone
  obtain ⟨picked, hPicked, hSame⟩ := hGone hRow
  exact exists_released_of_selected hRow hPicked hSame

theorem mem_deleteExpired {now : Timestamp} : row ∈ (deleteExpired claims now selected).1 ↔
      row ∈ claims ∧ ∀ picked ∈ selected, ¬(SameGeneration row picked ∧ row.expiresAt < now) := by
  induction selected generalizing claims with
  | nil => simp [deleteExpired]
  | cons picked rest ih =>
    have hTail : (deleteExpired claims now (picked :: rest)).1 =
        (deleteExpired (claims.filter fun claim => !(claim.key = picked.key &&
          claim.claimId = picked.claimId && claim.expiresAt < now)) now rest).1 := by
      rw [deleteExpired]
      split <;> rfl
    rw [hTail, ih, KeyedTable.mem_filter]
    simp only [forall_mem_cons, SameGeneration, Bool.not_eq_true', Bool.and_eq_false_iff,
      decide_eq_false_iff_not]
    tauto

theorem mem_releaseTasks : row ∈ (releaseTasks claims tasks).1 ↔ row ∈ claims ∧ row.taskId ∉ tasks := by
  induction tasks generalizing claims with
  | nil => simp [releaseTasks]
  | cons taskId rest ih =>
    simp only [releaseTasks, ih, mem_deleteSelected, List.mem_filter, decide_eq_true_eq,
      mem_cons, not_or, mem_rows]
    constructor
    · rintro ⟨⟨hRow, hKept⟩, hRest⟩
      exact ⟨hRow, fun hTask => hKept row ⟨hRow, hTask⟩ ⟨rfl, rfl⟩, hRest⟩
    · rintro ⟨hRow, hTask, hRest⟩
      refine ⟨⟨hRow, fun picked hPicked hSame => hTask ?_⟩, hRest⟩
      have hKey : row.taskId = picked.taskId := congrArg Prod.snd hSame.1
      exact hKey.trans hPicked.2

theorem exists_released_of_task (hRow : row ∈ claims) (hTask : row.taskId ∈ tasks) :
    ∃ released ∈ (releaseTasks claims tasks).2, SameGeneration row released := by
  induction tasks generalizing claims with
  | nil => cases hTask
  | cons taskId rest ih =>
    simp only [releaseTasks, mem_append]
    by_cases hFirst : row.taskId = taskId
    · have hPicked : row ∈ claims.rows.filter fun claim => claim.taskId = taskId := by
        simpa [hFirst] using hRow
      obtain ⟨released, hReleased, hSame⟩ := exists_released_of_selected hRow hPicked ⟨rfl, rfl⟩
      exact ⟨released, Or.inl hReleased, hSame⟩
    · have hRest : row.taskId ∈ rest := by simpa [hFirst] using hTask
      have hKept : row ∈ (deleteSelected claims
          (claims.rows.filter fun claim => claim.taskId = taskId)).1 := by
        refine mem_deleteSelected.mpr ⟨hRow, fun picked hPicked hSame => hFirst ?_⟩
        have hKey : row.taskId = picked.taskId := congrArg Prod.snd hSame.1
        simp only [List.mem_filter, decide_eq_true_eq] at hPicked
        exact hKey.trans hPicked.2
      obtain ⟨released, hReleased, hSame⟩ := ih hKept hRest
      exact ⟨released, Or.inr hReleased, hSame⟩

private theorem mem_deleteSelected_run {runId : RunId} :
    row ∈ (deleteSelected claims (claims.rows.filter fun claim => claim.runId = some runId)).1 ↔
      row ∈ claims ∧ row.runId ≠ some runId := by
  simp only [mem_deleteSelected, List.mem_filter, decide_eq_true_eq, KeyedTable.mem_rows]
  constructor
  · rintro ⟨hRow, hKept⟩
    exact ⟨hRow, fun hRun => hKept row ⟨hRow, hRun⟩ ⟨rfl, rfl⟩⟩
  · rintro ⟨hRow, hRun⟩
    refine ⟨hRow, fun picked hPicked hSame => hRun ?_⟩
    rw [KeyedTable.eq_of_key_eq hRow hPicked.1 hSame.1]
    exact hPicked.2

theorem mem_endRuns : row ∈ (endRuns db status reason endedAt runs).1.agentClaims ↔
      row ∈ db.agentClaims ∧ ∀ run ∈ runs, row.runId ≠ some run.id := by
  induction runs generalizing db with
  | nil => simp [endRuns]
  | cons run rest ih =>
    simp only [endRuns, ih, mem_deleteSelected_run, forall_mem_cons, and_assoc]

theorem exists_released_of_run {run : Run} (hRow : row ∈ db.agentClaims)
    (hRun : run ∈ runs) (hOwn : row.runId = some run.id) :
    ∃ released ∈ (endRuns db status reason endedAt runs).2, SameGeneration row released := by
  induction runs generalizing db with
  | nil => cases hRun
  | cons first rest ih =>
    simp only [endRuns, mem_append]
    by_cases hFirst : row.runId = some first.id
    · have hPicked : row ∈ db.agentClaims.rows.filter fun claim => claim.runId = some first.id := by
        simpa [hFirst] using hRow
      obtain ⟨released, hReleased, hSame⟩ := exists_released_of_selected hRow hPicked ⟨rfl, rfl⟩
      exact ⟨released, Or.inl hReleased, hSame⟩
    · have hRest : run ∈ rest := by
        rcases mem_cons.mp hRun with rfl | hRest
        · exact absurd hOwn hFirst
        · exact hRest
      have hKept := mem_deleteSelected_run.mpr ⟨hRow, hFirst⟩
      exact (ih hKept hRest).imp fun released h => ⟨Or.inr h.1, h.2⟩

/-- A batch contains the audit event that releases this generation. -/
def RecordsRelease (stored : List EventEnvelope) (row : AgentClaim) : Prop :=
  ∃ envelope ∈ stored, envelope.payload =
    .claim (.agentReleased row.agentId row.taskId (some row.claimId))

/-- Rows were only removed, and each removed generation was recorded. -/
structure RecordedRemoval (before after : AgentClaims) (stored : List EventEnvelope) : Prop where
  kept : ∀ row ∈ after, row ∈ before
  recorded : ∀ row ∈ before, row ∉ after → RecordsRelease stored row

theorem appendBatch_agentClaims
    (h : appendBatch db envelopes = .ok (stored, db')) : db'.agentClaims = db.agentClaims := by
  obtain ⟨_, _, rfl⟩ := (appendBatch_ok h).2.2
  rfl

theorem appendOn_agentClaims {envelope stored : EventEnvelope}
    (h : appendOn db envelope = .ok (stored, db')) : db'.agentClaims = db.agentClaims := by
  obtain ⟨_, _, rfl⟩ := (appendOn_ok h).2.2.2.2
  rfl

theorem recordsRelease_of_appendBatch {released : List AgentClaim}
    (h : appendBatch db (envelopes ++ releasedEvents env actor released) = .ok (stored, db'))
    (hMem : claim ∈ released) (hSame : SameGeneration row claim) : RecordsRelease stored row := by
  have hPayload : (Event.claim (.agentReleased claim.agentId claim.taskId (some claim.claimId))) ∈
      stored.map EventEnvelope.payload := by
    rw [(appendBatch_ok h).1, map_append, mem_append]
    right
    obtain ⟨n, hn, rfl⟩ := getElem_of_mem hMem
    refine mem_map.mpr ⟨_, mem_mapIdx.mpr ⟨n, hn, rfl⟩, rfl⟩
  obtain ⟨envelope, hEnvelope, hEq⟩ := mem_map.mp hPayload
  have hAgent : row.agentId = claim.agentId := congrArg Prod.fst hSame.1
  have hTask : row.taskId = claim.taskId := congrArg Prod.snd hSame.1
  exact ⟨envelope, hEnvelope, by rw [hEq, hAgent, hTask, hSame.2]⟩

theorem recordRunTerminal_removal {auth : AgentId}
    (h : recordRunTerminal db env actor auth isAdmin envelopes = .ok (stored, db')) :
    RecordedRemoval db.agentClaims db'.agentClaims stored := by
  unfold recordRunTerminal at h
  split at h
  · cases h
  · split at h
    · cases h
    · dsimp only at h
      split at h
      · cases h
      · split at h
        · cases h
        · split at h
          · cases h
          · have hClaims := appendBatch_agentClaims h
            dsimp only at hClaims
            refine ⟨fun row hRow => ?_, fun row hRow hGone => ?_⟩
            · rw [hClaims] at hRow
              exact (mem_deleteSelected.mp hRow).1
            · rw [hClaims] at hGone
              obtain ⟨claim, hClaim, hSame⟩ := exists_released_of_deleted hRow hGone
              exact recordsRelease_of_appendBatch h hClaim hSame

theorem recordPlanTerminal_removal {auth : Option AgentId}
    (h : recordPlanTerminal db env actor auth isAdmin envelopes = .ok (stored, db')) :
    RecordedRemoval db.agentClaims db'.agentClaims stored := by
  unfold recordPlanTerminal at h
  split at h
  · cases h
  · dsimp only at h
    split at h
    · cases h
    · have hClaims := appendBatch_agentClaims h
      refine ⟨fun row hRow => ?_, fun row hRow hGone => ?_⟩
      · rw [hClaims] at hRow
        exact (mem_endRuns.mp hRow).1
      · rw [hClaims, mem_endRuns] at hGone
        push Not at hGone
        obtain ⟨run, hRun, hOwn⟩ := hGone hRow
        obtain ⟨claim, hClaim, hSame⟩ := exists_released_of_run hRow hRun hOwn
        exact recordsRelease_of_appendBatch h hClaim hSame

theorem recordTaskLifecycle_removal (h : recordTaskLifecycle db env actor envelopes = .ok (stored, db')) :
    RecordedRemoval db.agentClaims db'.agentClaims stored := by
  unfold recordTaskLifecycle at h
  dsimp only at h
  have hClaims := appendBatch_agentClaims h
  dsimp only at hClaims
  refine ⟨fun row hRow => ?_, fun row hRow hGone => ?_⟩
  · rw [hClaims] at hRow
    exact (mem_releaseTasks.mp hRow).1
  · rw [hClaims, mem_releaseTasks] at hGone
    push Not at hGone
    obtain ⟨claim, hClaim, hSame⟩ := exists_released_of_task hRow (hGone hRow)
    exact recordsRelease_of_appendBatch h hClaim hSame

end AgentClaimRepo
end Daruma
