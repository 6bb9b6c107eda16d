import Daruma.Storage.Database

/-! Optimistic task claims with a time to live. Every function takes the instant
it read when it started; other calls may have run between that reading and the
statement that uses it. -/
namespace Daruma

abbrev AgentClaims := KeyedTable (AgentId × TaskId) AgentClaim AgentClaim.key

def AgentClaim.live (claim : AgentClaim) (now : Timestamp) : Bool := now ≤ claim.expiresAt

theorem AgentClaim.live_of_le {claim : AgentClaim} {now clock : Timestamp} (hLe : now ≤ clock)
    (h : claim.live clock = true) : now ≤ claim.expiresAt :=
  Int.le_trans hLe (of_decide_eq_true h)

namespace AgentClaimRepo

inductive ClaimOutcome where
  | acquired (expiresAt : Timestamp) (claimId : ClaimId)
  | busy (holder : AgentId) (expiresAt : Timestamp)

inductive RecordedClaimOutcome where
  | acquired (expiresAt : Timestamp) (claimId : ClaimId) (event : EventEnvelope)
  | busy (holder : AgentId) (expiresAt : Timestamp)

def getActiveForTask (claims : AgentClaims) (now : Timestamp) (taskId : TaskId) : Option AgentClaim :=
  (claims.rows.filter fun claim => claim.taskId = taskId && claim.live now).foldl
    (fun best claim => match best with
      | none => some claim
      | some held => if held.expiresAt < claim.expiresAt then some claim else some held) none

def heldByOther (claims : AgentClaims) (now : Timestamp) (agentId : AgentId) (taskId : TaskId) : Bool :=
  claims.rows.any fun claim => claim.taskId = taskId && claim.live now && claim.agentId ≠ agentId

/-- Another row has this generation; generations are unique in the table. -/
def claimIdTaken (claims : AgentClaims) (row : AgentClaim) : Bool :=
  claims.rows.any fun claim => claim.claimId = row.claimId && claim.key ≠ row.key

private def uniqueViolation : CoreError := .storage "UNIQUE constraint failed: agent_claims.claim_id"

/-- Insert a replayed claim. A row of the same agent and task is refreshed only
when it has the same generation; an expiry that has passed inserts nothing. -/
def acquireUntil (db : Database) (now : Timestamp) (agentId : AgentId) (taskId : TaskId)
    (claimId : ClaimId) (expiresAt : Timestamp) : Result Database :=
  if expiresAt ≤ now || heldByOther db.agentClaims now agentId taskId then .ok db
  else match db.agentClaims.find? (agentId, taskId) with
    | some old =>
      if old.claimId = claimId then
        .ok { db with agentClaims :=
          db.agentClaims.upsert { old with acquiredAt := now, expiresAt := expiresAt } }
      else .ok db
    | none =>
      let row : AgentClaim := ⟨agentId, taskId, now, expiresAt, none, claimId⟩
      if claimIdTaken db.agentClaims row then .error uniqueViolation
      else .ok { db with agentClaims := db.agentClaims.upsert row }

/-- Acquire a claim without looking at other agents. Not exclusive: the source
keeps it apart from the compare-and-set calls below. -/
def acquire (db : Database) (now : Timestamp) (agentId : AgentId) (taskId : TaskId) (claimId : ClaimId)
    (ttl : Duration) : (Timestamp × ClaimId) × Database :=
  let row : AgentClaim := ⟨agentId, taskId, now, now + ttl, none, claimId⟩
  let others := db.agentClaims.filter fun claim => claim.claimId ≠ claimId
  ((now + ttl, claimId), { db with agentClaims := others.insertOrReplace row })

/-- The compare-and-set of the granting calls: insert unless another agent has
a live claim, and refresh the caller's own row under the new generation. A
refresh without a run keeps the run of a row that is still live. -/
def compareAndSet (claims : AgentClaims) (now : Timestamp) (row : AgentClaim) :
    Result (Option AgentClaims) :=
  if heldByOther claims now row.agentId row.taskId then .ok none
  else if claimIdTaken claims row then .error uniqueViolation
  else match claims.find? row.key with
    | none => .ok (some (claims.upsert row))
    | some old =>
      let runId := if old.live now && row.runId.isNone then old.runId else row.runId
      .ok (some (claims.upsert { row with runId := runId }))

/-- Acquire an exclusive claim for a time to live. The holder of a refused call
is read afterwards, at `later`. -/
def tryAcquire (db : Database) (now later : Timestamp) (agentId : AgentId) (taskId : TaskId)
    (claimId : ClaimId) (ttl : Duration) : Result (ClaimOutcome × Database) :=
  let expiresAt := now + ttl
  match compareAndSet db.agentClaims now ⟨agentId, taskId, now, expiresAt, none, claimId⟩ with
  | .error e => .error e
  | .ok (some claims) => .ok (.acquired expiresAt claimId, { db with agentClaims := claims })
  | .ok none =>
    match getActiveForTask db.agentClaims later taskId with
    | some held => .ok (.busy held.agentId held.expiresAt, db)
    | none => .ok (.busy agentId expiresAt, db)

def resolveRunAssignment (db : Database) (ownerAgentId : AgentId) (runId : RunId) : Result PlanId :=
  match db.runs.find? runId with
  | none => .error (.notFound s!"run {runId}")
  | some run =>
    match db.plans.find? run.planId with
    | none => .error (.notFound s!"run {runId}")
    | some plan =>
      if run.status ≠ .active then .error (.conflict "run is not active")
      else if plan.status ≠ .active then .error (.conflict "run plan is not active")
      else if (db.runClaimOwners.find? runId).map RunClaimOwner.agentId ≠ some ownerAgentId then
        .error (.forbidden "run has no matching authenticated owner")
      else .ok run.planId

private def validateRun (db : Database) (agentId : AgentId) : Option (RunId × PlanId) → Result Unit
  | none => .ok ()
  | some (runId, planId) =>
    match resolveRunAssignment db agentId runId with
    | .error e => .error e
    | .ok actual =>
      if actual ≠ planId then .error (.conflict "run belongs to a different plan") else .ok ()

/-- Acquire a claim, for a run if one is given, and append its audit event. The
task and run checks, the compare-and-set and the append are one transaction. -/
def tryAcquireBoundRecorded (db : Database) (env : Env) (actor : Actor) (agentId : AgentId)
    (taskId : TaskId) (claimId : ClaimId) (expiresAt : Timestamp) (run : Option (RunId × PlanId)) :
    Result (RecordedClaimOutcome × Database) :=
  match db.tasks.find? taskId with
  | none => .error (.notFound s!"task {taskId}")
  | some task =>
    if task.status.isTerminal then .error (.conflict "terminal task cannot be claimed")
    else match validateRun db agentId run with
      | .error e => .error e
      | .ok () =>
        let row : AgentClaim := ⟨agentId, taskId, env.now, expiresAt, run.map Prod.fst, claimId⟩
        match compareAndSet db.agentClaims env.now row with
        | .error e => .error e
        | .ok (some claims) =>
          let event := EventEnvelope.new (env.fresh 0) env.now actor
            (.claim (.agentClaimed agentId taskId (some claimId) expiresAt))
          match appendOn { db with agentClaims := claims } event with
          | .error e => .error e
          | .ok (stored, db') => .ok (.acquired expiresAt claimId stored, db')
        | .ok none =>
          match getActiveForTask db.agentClaims env.now taskId with
          | some held => .ok (.busy held.agentId held.expiresAt, db)
          | none => .ok (.busy agentId expiresAt, db)

/-- Delete a row only if it still has the given generation. -/
def deleteExact (claims : AgentClaims) (agentId : AgentId) (taskId : TaskId) (claimId : ClaimId) :
    AgentClaims :=
  claims.filter fun claim => !(claim.agentId = agentId && claim.taskId = taskId && claim.claimId = claimId)

/-- Delete the selected generations that are still there, and say which were. -/
def deleteSelected (claims : AgentClaims) : List AgentClaim → AgentClaims × List AgentClaim
  | [] => (claims, [])
  | selected :: rest =>
    let later := deleteSelected
      (deleteExact claims selected.agentId selected.taskId selected.claimId) rest
    if claims.rows.any fun claim => claim.key = selected.key && claim.claimId = selected.claimId then
      (later.1, selected :: later.2)
    else later

def releasedEvents (env : Env) (actor : Actor) (released : List AgentClaim) : List EventEnvelope :=
  released.mapIdx fun n claim => EventEnvelope.new (env.fresh n) env.now actor
    (.claim (.agentReleased claim.agentId claim.taskId (some claim.claimId)))

def recordRunStarted (db : Database) (ownerAgentId : AgentId) (envelopes : List EventEnvelope) :
    Result (List EventEnvelope × Database) :=
  let started := envelopes.findSome? fun envelope => match envelope.payload with
    | .run (.runStarted run) => some run.id
    | _ => none
  match started with
  | none => .error (.validation "expected RunStarted event")
  | some runId =>
    if db.runClaimOwners.contains runId then
      .error (.storage "UNIQUE constraint failed: run_claim_owners.run_id")
    else appendBatch
      { db with runClaimOwners := db.runClaimOwners.upsert ⟨runId, ownerAgentId⟩ } envelopes

def terminalRun (envelopes : List EventEnvelope) : Option (RunId × RunStatus × Timestamp × String) :=
  envelopes.findSome? fun envelope => match envelope.payload with
    | .run (.runFailed runId reason instant) => some (runId, .failed, instant, reason)
    | .run (.runAborted runId reason instant) => some (runId, .aborted, instant, reason)
    | _ => none

private def endRun (status : RunStatus) (endedAt : Timestamp) (outcome : String) (run : Run) : Run :=
  { run with status := status, endedAt := some endedAt, outcome := some outcome }

/-- Authorise and persist the failure or abort of a run, with the release of
its claims and of its ownership. -/
def recordRunTerminal (db : Database) (env : Env) (actor : Actor) (authenticatedAgentId : AgentId)
    (isAdmin : Bool) (envelopes : List EventEnvelope) : Result (List EventEnvelope × Database) :=
  match terminalRun envelopes with
  | none => .error (.validation "expected failed or aborted run event")
  | some (runId, status, endedAt, outcome) =>
    match db.runs.find? runId with
    | none => .error (.notFound s!"run {runId}")
    | some run =>
      let owner := (db.runClaimOwners.find? runId).map RunClaimOwner.agentId
      if run.status ≠ .active then .error (.conflict "run is not active")
      else if owner.isSome && !(isAdmin || owner = some authenticatedAgentId) then
        .error (.forbidden "run is owned by another agent")
      else if owner.isNone && !isAdmin then
        .error (.forbidden "run has no authenticated owner")
      else
        let claims := db.agentClaims.rows.filter fun claim =>
          claim.runId = some runId ||
            -- Rows that predate run ownership name no run: an unowned run
            -- releases its agent's claims on its open steps.
            (owner.isNone && claim.runId.isNone && claim.agentId = run.agentId &&
              run.startedAt ≤ claim.acquiredAt && db.runSteps.any fun step =>
                step.runId = runId && step.taskId = claim.taskId && step.finishedAt.isNone)
        let (kept, released) := deleteSelected db.agentClaims claims
        let db' := { db with
          runs := db.runs.modify runId (endRun status endedAt outcome)
          agentClaims := kept
          runClaimOwners := db.runClaimOwners.erase runId }
        appendBatch db' (envelopes ++ releasedEvents env actor released)

/-- The plan that a batch ends, and how the runs still active in it end. -/
def terminalPlan (now : Timestamp) (envelopes : List EventEnvelope) :
    Option (PlanId × RunStatus × String × Timestamp) :=
  envelopes.findSome? fun envelope => match envelope.payload with
    | .plan (.planArchived planId instant) => some (planId, .aborted, "plan_archived", instant)
    | .plan (.planDeleted planId instant) => some (planId, .aborted, "plan_deleted", instant)
    | .plan (.planStatusChanged planId _ .completed) => some (planId, .completed, "plan_completed", now)
    | .plan (.planStatusChanged planId _ .abandoned) => some (planId, .aborted, "plan_abandoned", now)
    | _ => none

/-- End the active runs of a plan one after the other, each with its claims. -/
def endRuns (db : Database) (status : RunStatus) (reason : String) (endedAt : Timestamp) :
    List Run → Database × List AgentClaim
  | [] => (db, [])
  | run :: rest =>
    let claims := db.agentClaims.rows.filter fun claim => claim.runId = some run.id
    let (kept, released) := deleteSelected db.agentClaims claims
    let later := endRuns { db with
      runs := db.runs.modify run.id (endRun status endedAt reason)
      agentClaims := kept
      runClaimOwners := db.runClaimOwners.erase run.id } status reason endedAt rest
    (later.1, released ++ later.2)

/-- Unless the requester is an administrator or unauthenticated, it must own
every run that the end of a plan ends. -/
def ownsEveryRun (db : Database) (authenticatedAgentId : Option AgentId) (isAdmin : Bool)
    (runs : List Run) : Bool :=
  match authenticatedAgentId with
  | none => true
  | some requester => isAdmin || runs.all fun run =>
    (db.runClaimOwners.find? run.id).map RunClaimOwner.agentId = some requester

def recordPlanTerminal (db : Database) (env : Env) (actor : Actor)
    (authenticatedAgentId : Option AgentId) (isAdmin : Bool) (envelopes : List EventEnvelope) :
    Result (List EventEnvelope × Database) :=
  match terminalPlan env.now envelopes with
  | none => .error (.validation "expected terminal plan event")
  | some (planId, status, reason, endedAt) =>
    let runs := db.runs.rows.filter fun run => run.planId = planId && run.status = .active
    if !ownsEveryRun db authenticatedAgentId isAdmin runs then
      .error (.forbidden "plan termination requires ownership of every active run")
    else
      let (db', released) := endRuns db status reason endedAt runs
      appendBatch db' (envelopes ++ releasedEvents env actor released)

/-- The tasks that a batch closes or deletes, in order of first mention. -/
def cleanupTasks (envelopes : List EventEnvelope) : List TaskId :=
  envelopes.foldl (fun tasks envelope => match envelope.payload with
    | .task (.taskClosed taskId _ _) | .task (.taskDeleted taskId) =>
      if taskId ∈ tasks then tasks else tasks ++ [taskId]
    | _ => tasks) []

def releaseTasks (claims : AgentClaims) : List TaskId → AgentClaims × List AgentClaim
  | [] => (claims, [])
  | taskId :: rest =>
    let (kept, released) := deleteSelected claims (claims.rows.filter fun claim => claim.taskId = taskId)
    let later := releaseTasks kept rest
    (later.1, released ++ later.2)

/-- Persist task close and delete events with the release of their claims. -/
def recordTaskLifecycle (db : Database) (env : Env) (actor : Actor) (envelopes : List EventEnvelope) :
    Result (List EventEnvelope × Database) :=
  let (kept, released) := releaseTasks db.agentClaims (cleanupTasks envelopes)
  appendBatch { db with agentClaims := kept } (envelopes ++ releasedEvents env actor released)

/-- Delete an agent's claim on a task, whatever its generation. -/
def release (db : Database) (agentId : AgentId) (taskId : TaskId) : Database :=
  { db with agentClaims := db.agentClaims.filter fun claim =>
      !(claim.agentId = agentId && claim.taskId = taskId) }

/-- Release exactly one generation and append its audit event. A stale
generation is a no-op. -/
def releaseRecorded (db : Database) (env : Env) (actor : Actor) (agentId : AgentId) (taskId : TaskId)
    (claimId : ClaimId) : Result (Option EventEnvelope × Database) :=
  let deleted := db.agentClaims.rows.any fun claim =>
    claim.agentId = agentId && claim.taskId = taskId && claim.claimId = claimId
  if !deleted then .ok (none, db)
  else
    let event := EventEnvelope.new (env.fresh 0) env.now actor
      (.claim (.agentReleased agentId taskId (some claimId)))
    match appendOn { db with agentClaims := deleteExact db.agentClaims agentId taskId claimId } event with
    | .error e => .error e
    | .ok (stored, db') => .ok (some stored, db')

/-- Apply a persisted event. Task lifecycle events are no-ops here: their
cleanup was committed with them. -/
def applyEvent (db : Database) (now : Timestamp) (envelope : EventEnvelope) : Result Database :=
  match envelope.payload with
  | .claim (.agentClaimed agentId taskId (some claimId) expiresAt) =>
    acquireUntil db now agentId taskId claimId expiresAt
  | .claim (.agentClaimed _ _ none _) => .ok db
  | .claim (.agentReleased agentId taskId (some claimId)) =>
    .ok { db with agentClaims := deleteExact db.agentClaims agentId taskId claimId }
  | .claim (.agentReleased agentId taskId none) => .ok (release db agentId taskId)
  | _ => .ok db

theorem applyEvent_frame {db db' : Database} {now : Timestamp} {envelope : EventEnvelope}
    (h : applyEvent db now envelope = .ok db') : ∃ agentClaims, db' = { db with agentClaims := agentClaims } := by
  unfold applyEvent at h
  split at h
  · unfold acquireUntil at h
    split at h
    · cases h
      exact ⟨_, rfl⟩
    · split at h
      · split at h <;> cases h <;> exact ⟨_, rfl⟩
      · dsimp only at h
        split at h
        · cases h
        · cases h
          exact ⟨_, rfl⟩
  all_goals
    cases h
    exact ⟨_, rfl⟩

def selectExpired (claims : AgentClaims) (now : Timestamp) : List AgentClaim :=
  claims.rows.filter fun claim => claim.expiresAt < now

/-- Delete what has expired by `now`. -/
def sweepExpired (db : Database) (now : Timestamp) : Database :=
  { db with agentClaims := db.agentClaims.filter fun claim => !decide (claim.expiresAt < now) }

/-- Delete the selected generations that are still expired by `now`, and say
which were. -/
def deleteExpired (claims : AgentClaims) (now : Timestamp) :
    List AgentClaim → AgentClaims × List AgentClaim
  | [] => (claims, [])
  | selected :: rest =>
    let hit := fun (claim : AgentClaim) =>
      claim.key = selected.key && claim.claimId = selected.claimId && claim.expiresAt < now
    let later := deleteExpired (claims.filter fun claim => !hit claim) now rest
    if claims.rows.any hit then (later.1, selected :: later.2) else later

/-- The second half of the recorded sweep: the rows were selected earlier, the
conditional deletes and their audit events are one transaction. -/
def sweepExpiredRecorded (db : Database) (env : Env) (actor : Actor) (selected : List AgentClaim) :
    Result (List EventEnvelope × Database) :=
  let (kept, released) := deleteExpired db.agentClaims env.now selected
  appendBatch { db with agentClaims := kept } (releasedEvents env actor released)

end AgentClaimRepo
end Daruma
