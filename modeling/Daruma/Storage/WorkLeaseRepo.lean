import Daruma.Storage.Database

/-! The table of work leases: reservation under a conflict scan, release, expiry
and the replay of lease events. -/
namespace Daruma
namespace WorkLeaseRepo

abbrev WorkLeases := KeyedTable WorkLeaseId WorkLease WorkLease.id

inductive ReserveOutcome where
  | reserved (leases : List WorkLease)
  | conflict (path : String) (holder : AgentId) (holderTask : TaskId)
  deriving DecidableEq

def requestedTargets (targets : List String) : List String :=
  ((targets.map canonicalTargetUri).insertionSort fun a b => a ≤ b).dedup

/-- The live leases of other agents in the same project scope. -/
def contenders (leases : WorkLeases) (now : Timestamp) (agentId : AgentId)
    (projectId : Option ProjectId) : List WorkLease :=
  leases.rows.filter fun row =>
    now ≤ row.expiresAt && row.agentId ≠ agentId && row.projectId = projectId

def findConflict (existing : List WorkLease) (requested : List String) (mode : LeaseMode) :
    Option (String × AgentId × TaskId) :=
  existing.findSome? fun row =>
    if !mode.conflictsWith row.mode then none
    else
      (requested.find? fun req => targetsOverlap req row.resourceKey).map fun req =>
        (req, row.agentId, row.taskId)

/-- Grant one target: the agent's own lease on it is replaced, under the next
fencing token of the resource. -/
def grantTarget (db : Database) (agentId : AgentId) (taskId : TaskId) (projectId : Option ProjectId)
    (mode : LeaseMode) (now expiresAt : Timestamp) (id : WorkLeaseId) (req : String) :
    Result (WorkLease × Database) :=
  let glob := (stripPrefix "file://" req).getD req
  let kept := db.workLeases.filter fun row =>
    !(row.agentId = agentId && row.taskId = taskId &&
      (row.targetUri = some req || (row.targetUri = none && row.pathGlob = glob)))
  let token := ((db.leaseFencing.find? req).map LeaseFencing.seq).getD 0 + 1
  let lease : WorkLease :=
    { id, agentId, taskId, projectId, pathGlob := glob, targetUri := some req, mode,
      fencingToken := some token, acquiredAt := now, expiresAt }
  if h : kept.find? lease.id = none then
    .ok (lease, { db with
      workLeases := kept.append lease h
      leaseFencing := db.leaseFencing.upsert ⟨req, token⟩ })
  else .error (.storage "UNIQUE constraint failed: work_leases.id")

/-- Grant every requested target, the `n`-th under the `n`-th fresh identifier. -/
def grantTargets (db : Database) (env : Env) (agentId : AgentId) (taskId : TaskId)
    (projectId : Option ProjectId) (mode : LeaseMode) (expiresAt : Timestamp) :
    Nat → List String → Result (List WorkLease × Database)
  | _, [] => .ok ([], db)
  | n, req :: rest =>
    match grantTarget db agentId taskId projectId mode env.now expiresAt (env.fresh n) req with
    | .error e => .error e
    | .ok (lease, db') =>
      match grantTargets db' env agentId taskId projectId mode expiresAt (n + 1) rest with
      | .error e => .error e
      | .ok (leases, db'') => .ok (lease :: leases, db'')

/-- Reserve targets in one transaction: the conflict scan, then every grant. -/
def tryReserveTargets (db : Database) (env : Env) (agentId : AgentId) (taskId : TaskId)
    (projectId : Option ProjectId) (targets : List String) (mode : LeaseMode) (ttl : Duration) :
    Result (ReserveOutcome × Database) :=
  let requested := requestedTargets targets
  match findConflict (contenders db.workLeases env.now agentId projectId) requested mode with
  | some (path, holder, holderTask) => .ok (.conflict path holder holderTask, db)
  | none =>
    match grantTargets db env agentId taskId projectId mode (env.now + ttl) 0 requested with
    | .error e => .error e
    | .ok (leases, db') => .ok (.reserved leases, db')

def tryReserve (db : Database) (env : Env) (agentId : AgentId) (taskId : TaskId)
    (projectId : Option ProjectId) (paths : List String) (ttl : Duration) :
    Result (ReserveOutcome × Database) :=
  tryReserveTargets db env agentId taskId projectId paths .exclusive ttl

/-- Insert a lease row, replacing the row of its id. -/
def applyReserved (db : Database) (lease : WorkLease) : Database :=
  { db with workLeases := db.workLeases.insertOrReplace lease }

/-- A token is valid while it is the resource's current one and its holder's
lease is live. -/
def checkFencingToken (db : Database) (now : Timestamp) (agentId : AgentId) (target : String)
    (token : Int) : Bool :=
  let key := canonicalTargetUri target
  if (db.leaseFencing.find? key).map LeaseFencing.seq ≠ some token then false
  else db.workLeases.rows.any fun row =>
    row.agentId = agentId && row.targetUri = some key && row.fencingToken = some token &&
      now ≤ row.expiresAt

def releaseAllForTask (db : Database) (taskId : TaskId) : Database :=
  { db with workLeases := db.workLeases.filter fun row => row.taskId ≠ taskId }

def releaseForTask (db : Database) (agentId : AgentId) (taskId : TaskId) : Database :=
  { db with workLeases :=
      db.workLeases.filter fun row => !(row.agentId = agentId && row.taskId = taskId) }

def releaseLeases (db : Database) (agentId : AgentId) (taskId : TaskId) :
    List WorkLeaseId → Database
  | [] => db
  | id :: rest =>
    releaseLeases { db with workLeases := db.workLeases.filter fun row =>
      !(row.id = id && row.agentId = agentId && row.taskId = taskId) } agentId taskId rest

def applyEvent (db : Database) (envelope : EventEnvelope) : Database :=
  match envelope.payload with
  | .lease (.filesReserved leases) => leases.foldl applyReserved db
  | .lease (.filesReleased agentId taskId none) => releaseForTask db agentId taskId
  | .lease (.filesReleased agentId taskId (some ids)) => releaseLeases db agentId taskId ids
  | .task (.taskClosed taskId _ _) => releaseAllForTask db taskId
  | _ => db

theorem applyReserved_frame (leases : List WorkLease) (db : Database) :
    ∃ workLeases, leases.foldl applyReserved db = { db with workLeases := workLeases } := by
  induction leases generalizing db with
  | nil => exact ⟨_, rfl⟩
  | cons lease rest ih =>
    obtain ⟨workLeases, h⟩ := ih (applyReserved db lease)
    exact ⟨workLeases, h⟩

theorem releaseLeases_frame (agentId : AgentId) (taskId : TaskId) (ids : List WorkLeaseId) (db : Database) :
    ∃ workLeases, releaseLeases db agentId taskId ids = { db with workLeases := workLeases } := by
  induction ids generalizing db with
  | nil => exact ⟨_, rfl⟩
  | cons id rest ih =>
    obtain ⟨workLeases, h⟩ := ih { db with workLeases := db.workLeases.filter fun row =>
      !(row.id = id && row.agentId = agentId && row.taskId = taskId) }
    exact ⟨workLeases, h⟩

theorem applyEvent_frame (db : Database) (envelope : EventEnvelope) :
    ∃ workLeases, applyEvent db envelope = { db with workLeases := workLeases } := by
  unfold applyEvent
  split
  · exact applyReserved_frame _ db
  · exact ⟨_, rfl⟩
  · exact releaseLeases_frame _ _ _ db
  · exact ⟨_, rfl⟩
  · exact ⟨_, rfl⟩

structure SweptLeases where
  agentId : AgentId
  taskId : TaskId
  leaseIds : List WorkLeaseId
  deriving DecidableEq

/-- The order in which expired rows are read: by agent, task and id. -/
def readBefore (a b : WorkLease) : Prop :=
  a.agentId.uuid < b.agentId.uuid ∨ (a.agentId = b.agentId ∧
    (a.taskId.uuid < b.taskId.uuid ∨ (a.taskId = b.taskId ∧ a.id.uuid ≤ b.id.uuid)))

instance : DecidableRel readBefore := fun _ _ => inferInstanceAs (Decidable (_ ∨ _))

/-- Adjacent rows of one agent and task are reported together. -/
def groupSwept : List WorkLease → List SweptLeases
  | [] => []
  | row :: rest =>
    match groupSwept rest with
    | [] => [⟨row.agentId, row.taskId, [row.id]⟩]
    | group :: later =>
      if group.agentId = row.agentId && group.taskId = row.taskId then
        { group with leaseIds := row.id :: group.leaseIds } :: later
      else ⟨row.agentId, row.taskId, [row.id]⟩ :: group :: later

/-- Delete every expired lease, and report them by agent and task. -/
def sweepExpired (db : Database) (now : Timestamp) : List SweptLeases × Database :=
  let expired := db.workLeases.rows.filter fun row => row.expiresAt < now
  (groupSwept (expired.insertionSort readBefore),
    { db with workLeases := db.workLeases.filter fun row => !(row.expiresAt < now) })

end WorkLeaseRepo
end Daruma
