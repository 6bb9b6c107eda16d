import Daruma.Core.WorkUnitBatches
import Daruma.Storage.LeaseFencing

/-! Draining the units of a task. A drain claims a unit, reserves its resources,
records the claim and answers, in steps between which other drains and commands
come. -/
namespace Daruma

open KeyedTable List

open WorkUnitRepo (statusOf tryClaimNext revertClaim)
open WorkLeaseRepo (ReserveOutcome tryReserveTargets)

/-- How far a drain has come since its claim. -/
inductive DrainStage where
  | claimed | conflicted | reserved | recorded
  deriving DecidableEq

structure Drain where
  request : Nat
  agentId : AgentId
  /-- The unit as the claim left it. -/
  unit : WorkUnit
  ttl : Duration
  stage : DrainStage

/-- What an agent was told that it holds. -/
structure HandOut where
  agentId : AgentId
  workUnitId : WorkUnitId
  expiresAt : Option Timestamp

def HandOut.expired (handOut : HandOut) (now : Timestamp) : Bool :=
  handOut.expiresAt.any fun expiresAt => expiresAt < now

/-- A server with its drains in progress, and what agents hold by what they were
told. -/
structure Dispatch where
  db : Database
  drains : KeyedTable Nat Drain Drain.request
  handOuts : List HandOut

/-- The score of a unit for an agent, from its capability profiles. -/
abbrev Fit := AgentId → Timestamp → WorkUnit → Int

inductive DispatchOp where
  /-- A request claims the next unit of a task. -/
  | claim (request : Nat) (now : Timestamp) (taskId : TaskId) (agentId : AgentId) (ttl : Duration)
  /-- It reserves the resources of its unit. -/
  | reserve (request : Nat) (env : Env)
  /-- It reverts its claim after a conflict, and answers so. -/
  | revert (request : Nat) (now : Timestamp)
  /-- It puts the claim in the log. A failure is ignored. -/
  | record (request : Nat) (env : Env) (actor : Actor)
  /-- It tells the agent its unit. -/
  | answer (request : Nat) (now : Timestamp)
  | command (env : Env) (caller : Caller) (command : Command) (hDispatch : command.isDispatch = true) (actor : Actor)
  /-- The server does something else. -/
  | elsewhere (db : Database)

namespace Dispatch

/-- No drain is in progress, and no agent was told anything. -/
def start (db : Database) : Dispatch := ⟨db, .empty, []⟩

def drainAt (dispatch : Dispatch) (request : Nat) (stage : DrainStage) : Option Drain :=
  (dispatch.drains.find? request).filter fun drain => drain.stage = stage

def claim (fit : Fit) (dispatch : Dispatch) (request : Nat) (now : Timestamp) (taskId : TaskId) (agentId : AgentId)
    (ttl : Duration) : Dispatch :=
  match dispatch.drains.find? request with
  | some _ => dispatch
  | none =>
    match tryClaimNext fit dispatch.db now taskId agentId ttl with
    | (none, db) => { dispatch with db := db }
    | (some unit, db) => { dispatch with
        db := db
        drains := dispatch.drains.upsert ⟨request, agentId, unit, ttl, .claimed⟩ }

/-- An error ends the request, and the claim stays. -/
def reserve (dispatch : Dispatch) (request : Nat) (env : Env) : Dispatch :=
  match dispatch.drainAt request .claimed with
  | none => dispatch
  | some drain =>
    if drain.unit.artifactRefs.isEmpty then
      { dispatch with drains := dispatch.drains.upsert { drain with stage := .reserved } }
    else
      let projectId := (dispatch.db.tasks.find? drain.unit.taskId).bind Task.projectId
      match tryReserveTargets dispatch.db env drain.agentId drain.unit.taskId projectId drain.unit.artifactRefs
          .exclusive drain.ttl with
      | .error _ => { dispatch with drains := dispatch.drains.erase request }
      | .ok (.conflict .., db) => { dispatch with
          db := db
          drains := dispatch.drains.upsert { drain with stage := .conflicted } }
      | .ok (.reserved _, db) => { dispatch with
          db := db
          drains := dispatch.drains.upsert { drain with stage := .reserved } }

def revert (dispatch : Dispatch) (request : Nat) (now : Timestamp) : Dispatch :=
  match dispatch.drainAt request .conflicted with
  | none => dispatch
  | some drain => { dispatch with
      db := { dispatch.db with
        workUnits := revertClaim dispatch.db.workUnits now drain.unit.id drain.agentId }
      drains := dispatch.drains.erase request }

def record (dispatch : Dispatch) (request : Nat) (env : Env) (actor : Actor) : Dispatch :=
  match dispatch.drainAt request .reserved with
  | none => dispatch
  | some drain => { dispatch with
      db := (AutoAppend.persistSignalEvent env actor
        (.workUnit (.workUnitClaimed drain.unit.id drain.agentId (env.now + drain.ttl))) dispatch.db).2
      drains := dispatch.drains.upsert { drain with stage := .recorded } }

def answer (dispatch : Dispatch) (request : Nat) : Dispatch :=
  match dispatch.drainAt request .recorded with
  | none => dispatch
  | some drain => { dispatch with
      drains := dispatch.drains.erase request
      handOuts := ⟨drain.agentId, drain.unit.id, drain.unit.claimExpiresAt⟩ :: dispatch.handOuts }

/-- The log says that the unit was completed or released since then. -/
def endedSince (before after : Database) (id : WorkUnitId) : Bool :=
  (after.events.rows.drop before.events.rows.length).any fun envelope =>
    envelope.payload.asWorkUnit.any fun event => event.ends id

def step (config : Config) (fit : Fit) (dispatch : Dispatch) : DispatchOp → Dispatch
  | .claim request now taskId agentId ttl => dispatch.claim fit request now taskId agentId ttl
  | .reserve request env => dispatch.reserve request env
  | .revert request now => dispatch.revert request now
  | .record request env actor => dispatch.record request env actor
  | .answer request _ => dispatch.answer request
  | .command env caller command _ actor =>
    let db := (Handler.handleWithRunOwner config env caller command actor dispatch.db).2
    { dispatch with
      db := db
      handOuts := dispatch.handOuts.filter fun handOut => !endedSince dispatch.db db handOut.workUnitId }
  | .elsewhere db => { dispatch with
      db := { db with workUnits := dispatch.db.workUnits, handoffs := dispatch.db.handoffs } }

/-- A check holds of every step of a run. -/
def Along (config : Config) (fit : Fit) (check : Dispatch → DispatchOp → Prop) : Dispatch → List DispatchOp → Prop
  | _, [] => True
  | dispatch, op :: rest => check dispatch op ∧ Along config fit check (dispatch.step config fit op) rest

/-- The row is what a claim left, but for the time of its last update. -/
def LeftBy (unit row : WorkUnit) : Prop := { row with updatedAt := unit.updatedAt } = unit

theorem LeftBy.status {unit row : WorkUnit} (h : LeftBy unit row) : row.status = unit.status := by
  have hStatus : ({ row with updatedAt := unit.updatedAt } : WorkUnit).status = unit.status :=
    congrArg WorkUnit.status h
  exact hStatus

/-- One step of a run: an agent is told a unit only when no other agent holds it
unexpired and every contract for it is accepted; a done unit stays done; and a
revert writes only the row that its own drain left. -/
structure SafeStep (config : Config) (fit : Fit) (dispatch : Dispatch) (op : DispatchOp) : Prop where
  exclusive : ∀ request now drain, op = .answer request now → dispatch.drainAt request .recorded = some drain →
    ∀ handOut ∈ dispatch.handOuts, handOut.workUnitId = drain.unit.id → handOut.agentId ≠ drain.agentId →
      handOut.expired now = true
  received : ∀ request now drain, op = .answer request now → dispatch.drainAt request .recorded = some drain →
    ¬HandoffRepo.BlocksInto dispatch.db.handoffs drain.unit.id
  settled : ∀ id, statusOf dispatch.db.workUnits id = some .done →
    statusOf (dispatch.step config fit op).db.workUnits id = some .done
  own : ∀ request now drain, op = .revert request now → dispatch.drainAt request .conflicted = some drain →
    ∀ row, dispatch.db.workUnits.find? drain.unit.id = some row → row.ownerAgentId = some drain.agentId →
      LeftBy drain.unit row

end Dispatch

/-- A command that writes this status spoils a drain at this stage: the claim is
gone, or the next step of the drain overwrites the status. -/
def DrainStage.spoiledBy : DrainStage → WorkUnitStatus → Bool
  | _, .ready => true
  | .claimed, .done | .reserved, .done => true
  | .claimed, .blocked | .conflicted, .blocked => true
  | _, _ => false

/-- The command spoils the drain: it writes the unit while that matters, or asks for
a handoff to a unit that is about to be told. -/
def Command.Spoils (db : Database) (env : Env) (drain : Drain) : Command → Prop
  | .workUnit command => ∃ status, command.target = some (drain.unit.id, status) ∧
      drain.stage.spoiledBy status = true
  | command => drain.stage ≠ .conflicted ∧ command.asksFor db env drain.unit.id

namespace Dispatch

/-- No command of the step spoils a drain in progress. -/
def Undisturbed (dispatch : Dispatch) : DispatchOp → Prop
  | .command env _ command _ _ => ∀ drain ∈ dispatch.drains,
      ¬command.Spoils dispatch.db (Handler.builderEnv env) drain
  | _ => True

end Dispatch

def DrainStage.Allows (unit row : WorkUnit) : DrainStage → Prop
  | .claimed => Dispatch.LeftBy unit row
  | .conflicted => Dispatch.LeftBy unit row ∨ (row.status = .done ∧ row.ownerAgentId = none)
  | .reserved => row.status = .inProgress ∨ row.status = .blocked
  | .recorded => row.status.isDispatchable = false

namespace WorkUnitRepo

variable {workUnits : WorkUnits} {id : WorkUnitId} {instant : Timestamp} {event : WorkUnitEvent}
  {unit row : WorkUnit} {stage : DrainStage}

theorem find?_updateFields_self {f : WorkUnit → WorkUnit} (hId : ∀ unit, (f unit).id = unit.id)
    (hFound : workUnits.find? id = some row) :
    (updateFields workUnits id instant f).find? id = some { f row with updatedAt := instant } := by
  rw [find?_updateFields hId, if_pos rfl, hFound]
  rfl

theorem notDispatchable_of_allows (hUnit : unit.status = .inProgress) (h : stage.Allows unit row) :
    row.status.isDispatchable = false := by
  have hLeft : Dispatch.LeftBy unit row → row.status.isDispatchable = false := by
    intro hLeft
    rw [hLeft.status, hUnit]
    rfl
  cases stage with
  | claimed => exact hLeft h
  | conflicted =>
    rcases h with h | ⟨hDone, _⟩
    · exact hLeft h
    · rw [hDone]
      rfl
  | reserved =>
    rcases h with hIs | hIs
    · rw [hIs]
      rfl
    · rw [hIs]
      rfl
  | recorded => exact h

theorem Records.allowed (hRecords : Records workUnits id event) (hUnit : unit.status = .inProgress)
    (hFound : workUnits.find? id = some row) (hAllows : stage.Allows unit row)
    (hSpoils : stage.spoiledBy event.target = false) :
    ∃ row', (applyWorkUnitEvent workUnits instant event).find? id = some row' ∧ stage.Allows unit row' := by
  cases hRecords with
  | released at' =>
    cases stage <;> cases hSpoils
  | started hRow hOpen at' =>
    obtain rfl := Option.some.inj (hFound.symm.trans hRow)
    refine ⟨_, find?_updateFields_self (fun _ => rfl) hFound, ?_⟩
    have hLeft : Dispatch.LeftBy unit row →
        Dispatch.LeftBy unit { row with status := .inProgress, updatedAt := instant } := by
      intro hLeft
      have hStatus : row.status = .inProgress := hLeft.status.trans hUnit
      rw [Dispatch.LeftBy, ← hStatus]
      exact hLeft
    cases stage with
    | claimed => exact hLeft hAllows
    | conflicted =>
      rcases hAllows with hAllows | ⟨hDone, _⟩
      · exact .inl (hLeft hAllows)
      · rw [hDone] at hOpen
        cases hOpen
    | reserved => exact .inl rfl
    | recorded => rfl
  | blocked hRow hOpen reason at' =>
    refine ⟨_, find?_updateFields_self (fun _ => rfl) hFound, ?_⟩
    cases stage with
    | claimed | conflicted => cases hSpoils
    | reserved => exact .inr rfl
    | recorded => rfl
  | completed outcome artifacts units completedBy elapsed at' =>
    refine ⟨_, find?_updateFields_self (fun _ => rfl) hFound, ?_⟩
    cases stage with
    | claimed | reserved => cases hSpoils
    | conflicted => exact .inr ⟨rfl, rfl⟩
    | recorded => rfl

end WorkUnitRepo

namespace Dispatch

variable {config : Config} {fit : Fit} {dispatch : Dispatch} {drain : Drain} {request : Nat} {stage : DrainStage}
  {db : Database}

/-- What the steps preserve. -/
structure Exclusive (dispatch : Dispatch) : Prop where
  inProgress : ∀ drain ∈ dispatch.drains, drain.unit.status = .inProgress
  stands : ∀ drain ∈ dispatch.drains, ∃ row, dispatch.db.workUnits.find? drain.unit.id = some row ∧
    drain.stage.Allows drain.unit row
  distinct : ∀ drain ∈ dispatch.drains, ∀ other ∈ dispatch.drains, drain.unit.id = other.unit.id → drain = other
  received : ∀ drain ∈ dispatch.drains, drain.stage ≠ .conflicted →
    ¬HandoffRepo.BlocksInto dispatch.db.handoffs drain.unit.id
  unheld : ∀ drain ∈ dispatch.drains, ∀ handOut ∈ dispatch.handOuts, handOut.workUnitId ≠ drain.unit.id
  held : ∀ handOut ∈ dispatch.handOuts, ∀ status,
    statusOf dispatch.db.workUnits handOut.workUnitId = some status → status.isDispatchable = false

theorem exclusive_start : Exclusive (start db) := by
  have hNone : ∀ drain : Drain, drain ∉ (start db).drains := fun drain => not_mem_empty drain
  exact ⟨fun drain hMem => absurd hMem (hNone drain), fun drain hMem => absurd hMem (hNone drain),
    fun drain hMem => absurd hMem (hNone drain), fun drain hMem => absurd hMem (hNone drain),
    fun drain hMem => absurd hMem (hNone drain), fun handOut hMem => absurd hMem not_mem_nil⟩

theorem drainAt_eq_some (h : dispatch.drainAt request stage = some drain) :
    drain ∈ dispatch.drains ∧ drain.request = request ∧ drain.stage = stage := by
  obtain ⟨hFound, hStage⟩ := Option.filter_eq_some_iff.mp h
  exact ⟨mem_of_find? hFound, key_of_find? hFound, of_decide_eq_true hStage⟩

variable {workUnits' : WorkUnitRepo.WorkUnits} {now : Timestamp} {taskId : TaskId} {agentId : AgentId}
  {ttl : Duration} {env : Env} {actor : Actor} {op : DispatchOp}

variable {id : WorkUnitId} {workUnits : WorkUnitRepo.WorkUnits}

theorem statusOf_congr
    (h : workUnits'.find? id = workUnits.find? id) : statusOf workUnits' id = statusOf workUnits id :=
  congrArg (Option.map WorkUnit.status) h

theorem Exclusive.advance (h : Exclusive dispatch) (hMem : drain ∈ dispatch.drains)
    (hOthers : ∀ id, drain.unit.id ≠ id → db.workUnits.find? id = dispatch.db.workUnits.find? id)
    (hHandoffs : db.handoffs = dispatch.db.handoffs) (hStage : stage ≠ .conflicted → drain.stage ≠ .conflicted)
    (hStands : ∃ row, db.workUnits.find? drain.unit.id = some row ∧ stage.Allows drain.unit row) :
    Exclusive { dispatch with db := db, drains := dispatch.drains.upsert { drain with stage := stage } } := by
  have hCases : ∀ other ∈ dispatch.drains.upsert { drain with stage := stage },
      other = { drain with stage := stage } ∨ (other ∈ dispatch.drains ∧ drain.unit.id ≠ other.unit.id) := by
    intro other hOther
    rcases mem_upsert.mp hOther with rfl | ⟨hOld, hKey⟩
    · exact .inl rfl
    · exact .inr ⟨hOld, fun hSame => hKey (congrArg Drain.request (h.distinct drain hMem other hOld hSame)).symm⟩
  refine ⟨fun other hOther => ?_, fun other hOther => ?_, fun other hOther last hLast hSame => ?_,
    fun other hOther hConflict => ?_, fun other hOther handOut hHandOut => ?_, fun handOut hHandOut status hStatus => ?_⟩
  · rcases hCases other hOther with rfl | ⟨hOld, _⟩
    · exact h.inProgress drain hMem
    · exact h.inProgress other hOld
  · rcases hCases other hOther with rfl | ⟨hOld, hOtherUnit⟩
    · exact hStands
    · change ∃ row, db.workUnits.find? other.unit.id = some row ∧ _
      rw [hOthers _ hOtherUnit]
      exact h.stands other hOld
  · rcases hCases other hOther with rfl | ⟨hOld, hOtherUnit⟩
    · rcases hCases last hLast with rfl | ⟨_, hLastUnit⟩
      · rfl
      · exact absurd hSame hLastUnit
    · rcases hCases last hLast with rfl | ⟨hLastOld, _⟩
      · exact absurd hSame.symm hOtherUnit
      · exact h.distinct other hOld last hLastOld hSame
  · change ¬HandoffRepo.BlocksInto db.handoffs other.unit.id
    rw [hHandoffs]
    rcases hCases other hOther with rfl | ⟨hOld, _⟩
    · exact h.received drain hMem (hStage hConflict)
    · exact h.received other hOld hConflict
  · rcases hCases other hOther with rfl | ⟨hOld, _⟩
    · exact h.unheld drain hMem handOut hHandOut
    · exact h.unheld other hOld handOut hHandOut
  · have hKept := statusOf_congr (hOthers _ (h.unheld drain hMem handOut hHandOut).symm)
    exact h.held handOut hHandOut status (hKept.symm.trans hStatus)

theorem Exclusive.finish (h : Exclusive dispatch) (hMem : drain ∈ dispatch.drains)
    (hOthers : ∀ id, drain.unit.id ≠ id → db.workUnits.find? id = dispatch.db.workUnits.find? id)
    (hHandoffs : db.handoffs = dispatch.db.handoffs) :
    Exclusive { dispatch with db := db, drains := dispatch.drains.erase drain.request } := by
  have hCases : ∀ other ∈ dispatch.drains.erase drain.request,
      other ∈ dispatch.drains ∧ drain.unit.id ≠ other.unit.id := by
    intro other hOther
    obtain ⟨hOld, hKey⟩ := mem_erase.mp hOther
    exact ⟨hOld, fun hSame => hKey (congrArg Drain.request (h.distinct drain hMem other hOld hSame)).symm⟩
  refine ⟨fun other hOther => h.inProgress other (hCases other hOther).1, fun other hOther => ?_,
    fun other hOther last hLast => h.distinct other (hCases other hOther).1 last (hCases last hLast).1,
    fun other hOther hConflict => ?_, fun other hOther => h.unheld other (hCases other hOther).1,
    fun handOut hHandOut status hStatus => ?_⟩
  · change ∃ row, db.workUnits.find? other.unit.id = some row ∧ _
    rw [hOthers _ (hCases other hOther).2]
    exact h.stands other (hCases other hOther).1
  · change ¬HandoffRepo.BlocksInto db.handoffs other.unit.id
    rw [hHandoffs]
    exact h.received other (hCases other hOther).1 hConflict
  · have hKept := statusOf_congr (hOthers _ (h.unheld drain hMem handOut hHandOut).symm)
    exact h.held handOut hHandOut status (hKept.symm.trans hStatus)

theorem Exclusive.claim (h : Exclusive dispatch) : Exclusive (dispatch.claim fit request now taskId agentId ttl) := by
  unfold Dispatch.claim
  split
  · exact h
  cases hClaim : tryClaimNext fit dispatch.db now taskId agentId ttl with
  | mk claimed db =>
  rcases WorkUnitRepo.tryClaimNext_cases hClaim with ⟨rfl, rfl⟩ | ⟨unit, workUnits, rfl, rfl, hClaims⟩
  · exact h
  obtain ⟨status, hStatus, hFree⟩ := hClaims.free
  -- The claimed unit was open, so nobody drains or holds it.
  have hDrains : ∀ drain ∈ dispatch.drains, unit.id ≠ drain.unit.id := by
    intro drain hMem hSame
    obtain ⟨row, hRow, hAllows⟩ := h.stands drain hMem
    rw [hSame, statusOf, hRow] at hStatus
    have hClosed := WorkUnitRepo.notDispatchable_of_allows (h.inProgress drain hMem) hAllows
    obtain rfl := Option.some.inj hStatus
    exact absurd (hClosed.symm.trans hFree) Bool.false_ne_true
  have hHolds : ∀ handOut ∈ dispatch.handOuts, handOut.workUnitId ≠ unit.id := by
    intro handOut hMem hSame
    exact absurd ((h.held handOut hMem status (hSame ▸ hStatus)).symm.trans hFree) Bool.false_ne_true
  have hCases : ∀ drain ∈ dispatch.drains.upsert ⟨request, agentId, unit, ttl, .claimed⟩,
      drain = ⟨request, agentId, unit, ttl, .claimed⟩ ∨ drain ∈ dispatch.drains :=
    fun drain hMem => (mem_upsert.mp hMem).imp_right And.left
  have hOther : ∀ id, unit.id ≠ id → workUnits.find? id = dispatch.db.workUnits.find? id :=
    fun id hNe => (hClaims.found id).trans (if_neg hNe)
  refine ⟨fun drain hMem => ?_, fun drain hMem => ?_, fun drain hMem last hLast hSame => ?_,
    fun drain hMem hConflict => ?_, fun drain hMem handOut hHandOut => ?_, fun handOut hHandOut status hNow => ?_⟩
  · rcases hCases drain hMem with rfl | hOld
    · exact hClaims.inProgress
    · exact h.inProgress drain hOld
  · rcases hCases drain hMem with rfl | hOld
    · exact ⟨unit, (hClaims.found unit.id).trans (if_pos rfl), rfl⟩
    · change ∃ row, workUnits.find? drain.unit.id = some row ∧ _
      rw [hOther _ (hDrains drain hOld)]
      exact h.stands drain hOld
  · rcases hCases drain hMem with rfl | hOld
    · rcases hCases last hLast with rfl | hLastOld
      · rfl
      · exact absurd hSame (hDrains last hLastOld)
    · rcases hCases last hLast with rfl | hLastOld
      · exact absurd hSame.symm (hDrains drain hOld)
      · exact h.distinct drain hOld last hLastOld hSame
  · rcases hCases drain hMem with rfl | hOld
    · exact hClaims.received
    · exact h.received drain hOld hConflict
  · rcases hCases drain hMem with rfl | hOld
    · exact hHolds handOut hHandOut
    · exact h.unheld drain hOld handOut hHandOut
  · have hKept := statusOf_congr (hOther _ (hHolds handOut hHandOut).symm)
    exact h.held handOut hHandOut status (hKept.symm.trans hNow)

theorem Exclusive.reserve {env : Env} (h : Exclusive dispatch) : Exclusive (dispatch.reserve request env) := by
  unfold Dispatch.reserve
  split
  · exact h
  rename_i drain hAt
  obtain ⟨hMem, hRequest, hStage⟩ := drainAt_eq_some hAt
  obtain ⟨row, hRow, hAllows⟩ := h.stands drain hMem
  rw [hStage] at hAllows
  have hInProgress : row.status = .inProgress := hAllows.status.trans (h.inProgress drain hMem)
  have hNotConflicted : ∀ stage : DrainStage, stage ≠ .conflicted → drain.stage ≠ .conflicted := by
    rw [hStage]
    exact fun _ _ => nofun
  split
  · exact h.advance hMem (fun _ _ => rfl) rfl (hNotConflicted _) ⟨row, hRow, .inl hInProgress⟩
  dsimp only
  split
  · rw [← hRequest]
    exact h.finish hMem (fun _ _ => rfl) rfl
  · rename_i hReserved
    obtain ⟨_, _, rfl⟩ := WorkLeaseRepo.tryReserveTargets_leasesOnly hReserved
    exact h.advance hMem (fun _ _ => rfl) rfl (hNotConflicted _) ⟨row, hRow, .inl hAllows⟩
  · rename_i hReserved
    obtain ⟨_, _, rfl⟩ := WorkLeaseRepo.tryReserveTargets_leasesOnly hReserved
    exact h.advance hMem (fun _ _ => rfl) rfl (hNotConflicted _) ⟨row, hRow, .inl hInProgress⟩

theorem Exclusive.revert (h : Exclusive dispatch) : Exclusive (dispatch.revert request now) := by
  unfold Dispatch.revert
  split
  · exact h
  rename_i drain hAt
  obtain ⟨hMem, hRequest, _⟩ := drainAt_eq_some hAt
  rw [← hRequest]
  exact h.finish hMem (fun _ hNe => WorkUnitRepo.find?_revertClaim hNe) rfl

theorem Exclusive.record (h : Exclusive dispatch) : Exclusive (dispatch.record request env actor) := by
  unfold Dispatch.record
  split
  · exact h
  rename_i drain hAt
  obtain ⟨hMem, _, hStage⟩ := drainAt_eq_some hAt
  obtain ⟨row, hRow, hAllows⟩ := h.stands drain hMem
  have hNot : drain.stage ≠ .conflicted := by
    rw [hStage]
    nofun
  have hClosed := WorkUnitRepo.notDispatchable_of_allows (h.inProgress drain hMem) hAllows
  obtain ⟨hHandoffs, hUnits | ⟨instant, hUnits⟩⟩ := AutoAppend.persistSignalEvent_workUnit
    (rfl : (AutoAppend.persistSignalEvent env actor
      (.workUnit (.workUnitClaimed drain.unit.id drain.agentId (env.now + drain.ttl))) dispatch.db).2 = _)
  · refine h.advance hMem (fun _ _ => by rw [hUnits]) hHandoffs (fun _ => hNot) ⟨row, ?_, hClosed⟩
    rw [hUnits]
    exact hRow
  · refine h.advance hMem (fun id hNe => ?_) hHandoffs (fun _ => hNot) ?_
    · rw [hUnits]
      exact WorkUnitRepo.find?_applyWorkUnitEvent_of_ne hNe
    · rw [hUnits]
      exact ⟨_, WorkUnitRepo.find?_updateFields_self (fun _ => rfl) hRow, rfl⟩

theorem Exclusive.answer (h : Exclusive dispatch) : Exclusive (dispatch.answer request) := by
  unfold Dispatch.answer
  split
  · exact h
  rename_i drain hAt
  obtain ⟨hMem, hRequest, hStage⟩ := drainAt_eq_some hAt
  obtain ⟨row, hRow, hAllows⟩ := h.stands drain hMem
  rw [hStage] at hAllows
  have hFinished := h.finish hMem (fun _ _ => rfl) rfl
  refine ⟨?_, ?_, ?_, ?_, fun other hOther handOut hHandOut => ?_, fun handOut hHandOut status hStatus => ?_⟩
  · exact hRequest ▸ hFinished.inProgress
  · exact hRequest ▸ hFinished.stands
  · exact hRequest ▸ hFinished.distinct
  · exact hRequest ▸ hFinished.received
  · rcases mem_cons.mp hHandOut with rfl | hOld
    · obtain ⟨hOld, hKey⟩ := mem_erase.mp hOther
      refine fun hSame => hKey ?_
      rw [← hRequest]
      exact (congrArg Drain.request (h.distinct drain hMem other hOld hSame)).symm
    · exact h.unheld other (mem_erase.mp hOther).1 handOut hOld
  · rcases mem_cons.mp hHandOut with rfl | hOld
    · change (dispatch.db.workUnits.find? drain.unit.id).map WorkUnit.status = some status at hStatus
      rw [hRow] at hStatus
      obtain rfl := Option.some.inj hStatus
      exact hAllows
    · exact h.held handOut hOld status hStatus

theorem Exclusive.command {caller : Caller} {command : Command}
    (hDispatch : command.isDispatch = true) (h : Exclusive dispatch)
    (hUndisturbed : Undisturbed dispatch (.command env caller command hDispatch actor)) :
    Exclusive (dispatch.step config fit (.command env caller command hDispatch actor)) := by
  have hServed : Handler.Dispatched command env dispatch.db
      (Handler.handleWithRunOwner config env caller command actor dispatch.db).2 := Handler.handle_dispatched hDispatch
  refine ⟨h.inProgress, fun drain hMem => ?_, h.distinct, fun drain hMem hStage hBlocks => ?_,
    fun drain hMem handOut hHandOut => h.unheld drain hMem handOut (mem_filter.mp hHandOut).1,
    fun handOut hHandOut => ?_⟩
  · obtain ⟨row, hRow, hAllows⟩ := h.stands drain hMem
    rcases hServed.moved drain.unit.id with hKept | ⟨recorded, event, instant, rfl, hTarget, hRecords, hMoved⟩
    · exact ⟨row, hKept.trans hRow, hAllows⟩
    · have hSpoils : drain.stage.spoiledBy event.target = false :=
        Bool.eq_false_iff.mpr fun hSpoiled => hUndisturbed drain hMem ⟨_, hTarget, hSpoiled⟩
      obtain ⟨row', hRow', hAllows'⟩ := hRecords.allowed (h.inProgress drain hMem) hRow hAllows hSpoils
      exact ⟨row', hMoved.trans hRow', hAllows'⟩
  · refine h.received drain hMem hStage (hServed.received _ (fun hAsks => hUndisturbed drain hMem ?_) hBlocks)
    cases command with
    | handoff command => exact ⟨hStage, hAsks⟩
    | workUnit command => cases hAsks
    | _ => cases hDispatch
  · obtain ⟨hOld, hKept⟩ := mem_filter.mp hHandOut
    rcases hServed.held _ (h.held handOut hOld) with ⟨envelope, hMem, event, hPayload, hEnds⟩ | hHeld
    · have hEnded : endedSince dispatch.db (Handler.handleWithRunOwner config env caller command actor
          dispatch.db).2 handOut.workUnitId = true := by
        refine any_eq_true.mpr ⟨envelope, hMem, ?_⟩
        rw [hPayload]
        exact hEnds
      rw [hEnded] at hKept
      cases hKept
    · exact hHeld

/-- What a step preserves, when it spoils no drain. -/
theorem Exclusive.step {op : DispatchOp} (h : Exclusive dispatch) (hUndisturbed : Undisturbed dispatch op) :
    Exclusive (dispatch.step config fit op) := by
  cases op with
  | claim request now taskId agentId ttl => exact h.claim
  | reserve request env => exact h.reserve
  | revert request now => exact h.revert
  | record request env actor => exact h.record
  | answer request now => exact h.answer
  | command env caller command hDispatch actor => exact h.command hDispatch hUndisturbed
  | elsewhere db => exact ⟨h.inProgress, h.stands, h.distinct, h.received, h.unheld, h.held⟩

theorem settled_of_find? {unitId : WorkUnitId}
    (hOthers : ∀ id, unitId ≠ id → workUnits'.find? id = workUnits.find? id)
    (hUnit : statusOf workUnits unitId = some .done → statusOf workUnits' unitId = some .done) :
    ∀ id, statusOf workUnits id = some .done → statusOf workUnits' id = some .done := by
  intro id hDone
  by_cases hSame : unitId = id
  · subst hSame
    exact hUnit hDone
  · exact (statusOf_congr (hOthers id hSame)).trans hDone

theorem settled_claim (hDone : statusOf dispatch.db.workUnits id = some .done) :
    statusOf (dispatch.claim fit request now taskId agentId ttl).db.workUnits id = some .done := by
  unfold Dispatch.claim
  split
  · exact hDone
  cases hClaim : tryClaimNext fit dispatch.db now taskId agentId ttl with
  | mk claimed db =>
  rcases WorkUnitRepo.tryClaimNext_cases hClaim with ⟨rfl, rfl⟩ | ⟨unit, workUnits, rfl, rfl, hClaims⟩
  · exact hDone
  · refine settled_of_find? (fun id hNe => (hClaims.found id).trans (if_neg hNe)) (fun hWas => ?_) id hDone
    obtain ⟨status, hStatus, hFree⟩ := hClaims.free
    rw [hWas] at hStatus
    obtain rfl := Option.some.inj hStatus
    cases hFree

theorem settled_reserve (hDone : statusOf dispatch.db.workUnits id = some .done) :
    statusOf (dispatch.reserve request env).db.workUnits id = some .done := by
  unfold Dispatch.reserve
  split
  · exact hDone
  split
  · exact hDone
  dsimp only
  split
  · exact hDone
  · rename_i hReserved
    obtain ⟨_, _, rfl⟩ := WorkLeaseRepo.tryReserveTargets_leasesOnly hReserved
    exact hDone
  · rename_i hReserved
    obtain ⟨_, _, rfl⟩ := WorkLeaseRepo.tryReserveTargets_leasesOnly hReserved
    exact hDone

theorem settled_revert (h : Exclusive dispatch) (hDone : statusOf dispatch.db.workUnits id = some .done) :
    statusOf (dispatch.revert request now).db.workUnits id = some .done := by
  unfold Dispatch.revert
  split
  · exact hDone
  rename_i drain hAt
  obtain ⟨hMem, _, hStage⟩ := drainAt_eq_some hAt
  obtain ⟨row, hRow, hAllows⟩ := h.stands drain hMem
  rw [hStage] at hAllows
  refine settled_of_find? (fun _ hNe => WorkUnitRepo.find?_revertClaim hNe) (fun hWas => ?_) id hDone
  rw [statusOf, hRow] at hWas
  rcases hAllows with hLeft | ⟨_, hOwner⟩
  · cases (hLeft.status.trans (h.inProgress drain hMem)).symm.trans (Option.some.inj hWas)
  · have hNotOwner : row.ownerAgentId ≠ some drain.agentId := by
      rw [hOwner]
      exact (Option.some_ne_none _).symm
    have hKept : (revertClaim dispatch.db.workUnits now drain.unit.id drain.agentId).find? drain.unit.id = some row := by
      unfold revertClaim
      rw [find?_modify, if_pos rfl, hRow, Option.map_some, if_neg hNotOwner]
      intro unit
      split <;> rfl
    change ((revertClaim dispatch.db.workUnits now drain.unit.id drain.agentId).find? drain.unit.id).map
      WorkUnit.status = _
    rw [hKept]
    exact hWas

theorem settled_record (h : Exclusive dispatch) (hDone : statusOf dispatch.db.workUnits id = some .done) :
    statusOf (dispatch.record request env actor).db.workUnits id = some .done := by
  unfold Dispatch.record
  split
  · exact hDone
  rename_i drain hAt
  obtain ⟨hMem, _, hStage⟩ := drainAt_eq_some hAt
  obtain ⟨row, hRow, hAllows⟩ := h.stands drain hMem
  rw [hStage] at hAllows
  obtain ⟨_, hUnits | ⟨instant, hUnits⟩⟩ := AutoAppend.persistSignalEvent_workUnit
    (rfl : (AutoAppend.persistSignalEvent env actor
      (.workUnit (.workUnitClaimed drain.unit.id drain.agentId (env.now + drain.ttl))) dispatch.db).2 = _)
  · dsimp only
    rw [hUnits]
    exact hDone
  · dsimp only
    rw [hUnits]
    have hOthers : ∀ id, drain.unit.id ≠ id → (WorkUnitRepo.applyWorkUnitEvent dispatch.db.workUnits instant
        (.workUnitClaimed drain.unit.id drain.agentId (env.now + drain.ttl))).find? id =
          dispatch.db.workUnits.find? id :=
      fun _ hNe => WorkUnitRepo.find?_applyWorkUnitEvent_of_ne hNe
    refine settled_of_find? hOthers (fun hWas => ?_) id hDone
    rw [statusOf, hRow] at hWas
    have hStatus : row.status = .done := Option.some.inj hWas
    rcases hAllows with hIs | hIs
    · cases hIs.symm.trans hStatus
    · cases hIs.symm.trans hStatus

theorem Exclusive.safe (h : Exclusive dispatch) : SafeStep config fit dispatch op := by
  refine ⟨?_, ?_, fun id hDone => ?_, ?_⟩
  · intro request now drain _ hAt handOut hHandOut hSame
    exact absurd hSame (h.unheld drain (drainAt_eq_some hAt).1 handOut hHandOut)
  · intro request now drain _ hAt
    obtain ⟨hMem, _, hStage⟩ := drainAt_eq_some hAt
    refine h.received drain hMem ?_
    rw [hStage]
    nofun
  · cases op with
    | claim request now taskId agentId ttl => exact settled_claim hDone
    | reserve request env => exact settled_reserve hDone
    | revert request now => exact settled_revert h hDone
    | record request env actor => exact settled_record h hDone
    | answer request now =>
      have hSame : (dispatch.answer request).db = dispatch.db := by
        unfold Dispatch.answer
        split <;> rfl
      change statusOf (dispatch.answer request).db.workUnits id = _
      rw [hSame]
      exact hDone
    | command env caller command hDispatch actor =>
      have hServed : Handler.Dispatched command env dispatch.db
          (Handler.handleWithRunOwner config env caller command actor dispatch.db).2 :=
        Handler.handle_dispatched hDispatch
      exact hServed.done id hDone
    | elsewhere db => exact hDone
  · intro request now drain _ hAt row hRow hOwner
    obtain ⟨hMem, _, hStage⟩ := drainAt_eq_some hAt
    obtain ⟨found, hFound, hAllows⟩ := h.stands drain hMem
    obtain rfl := Option.some.inj (hFound.symm.trans hRow)
    rw [hStage] at hAllows
    rcases hAllows with hLeft | ⟨_, hNone⟩
    · exact hLeft
    · cases hNone.symm.trans hOwner

theorem Along.check_at {check : Dispatch → DispatchOp → Prop} {dispatch : Dispatch} {before rest : List DispatchOp} (h : Along config fit check dispatch (before ++ op :: rest)) :
    check (before.foldl (step config fit) dispatch) op := by
  induction before generalizing dispatch with
  | nil => exact h.1
  | cons _ _ ih => exact ih h.2

/-- In a run in which no command spoils a drain in progress, every step is safe. -/
theorem drains_safe {ops : List DispatchOp} (h : Along config fit Undisturbed (start db) ops) :
    Along config fit (SafeStep config fit) (start db) ops := by
  have hAll : ∀ {dispatch : Dispatch} {ops : List DispatchOp}, Exclusive dispatch →
      Along config fit Undisturbed dispatch ops → Along config fit (SafeStep config fit) dispatch ops := by
    intro dispatch ops hInv hRun
    induction ops generalizing dispatch with
    | nil => exact trivial
    | cons op rest ih => exact ⟨hInv.safe, ih (hInv.step hRun.1) hRun.2⟩
  exact hAll exclusive_start h

/-- Every unit fits every agent alike. -/
private def noProfiles : Fit := fun _ _ _ => 0

private def unit : WorkUnit where
  id := ⟨5⟩
  taskId := ⟨7⟩
  stagePlanId := none
  title := "unit"
  description := ""
  status := .ready
  priority := .p2
  capabilityTags := []
  ownerAgentId := none
  claimExpiresAt := none
  artifactRefs := []
  acceptance := []
  createdAt := 0
  updatedAt := 0

private def oneUnit : Database := { Database.empty with workUnits := ⟨[unit], List.nodup_singleton _⟩ }

private def agentActor : Actor := .agent ⟨2⟩ "agent" none

/-- A drain that nothing disturbs; the agent completes the unit it was told. -/
private def drainedRun : List DispatchOp :=
  [.claim 0 10 ⟨7⟩ ⟨2⟩ 300, .reserve 0 (Server.nthEnv 11), .record 0 (Server.nthEnv 12) agentActor, .answer 0 13,
    .command (Server.nthEnv 14) .internal (.workUnit (.completeWorkUnit ⟨5⟩ none [] [])) rfl agentActor]

theorem drains_safe_drained :
    Along Server.engineConfig noProfiles (SafeStep Server.engineConfig noProfiles) (start oneUnit) drainedRun := by
  refine drains_safe ⟨trivial, trivial, trivial, trivial, fun drain hMem => ?_, trivial⟩
  have hNone : ((((((start oneUnit).step Server.engineConfig noProfiles (.claim 0 10 ⟨7⟩ ⟨2⟩ 300)).step
      Server.engineConfig noProfiles (.reserve 0 (Server.nthEnv 11))).step Server.engineConfig noProfiles
      (.record 0 (Server.nthEnv 12) agentActor)).step Server.engineConfig noProfiles (.answer 0 13)).drains.rows.length) =
      0 := by
    decide +kernel
  exact absurd (mem_rows.mpr hMem) (by rw [length_eq_zero_iff.mp hNone]; exact not_mem_nil)

/-- The unit is completed before its claim is in the log. -/
private def completedUnderRun : List DispatchOp :=
  [.claim 0 10 ⟨7⟩ ⟨2⟩ 300, .reserve 0 (Server.nthEnv 11),
    .command (Server.nthEnv 12) .internal (.workUnit (.completeWorkUnit ⟨5⟩ none [] [])) rfl agentActor,
    .record 0 (Server.nthEnv 13) agentActor]

private def completedUnder : Dispatch :=
  (completedUnderRun.take 3).foldl (step Server.engineConfig noProfiles) (start oneUnit)

/-- The claim of the drain puts the done unit back in progress. -/
theorem done_unit_back_in_progress :
    ¬Along Server.engineConfig noProfiles (SafeStep Server.engineConfig noProfiles) (start oneUnit)
      completedUnderRun := by
  intro hRun
  have hSplit : completedUnderRun = completedUnderRun.take 3 ++ [.record 0 (Server.nthEnv 13) agentActor] := rfl
  rw [hSplit] at hRun
  have hSafe : SafeStep Server.engineConfig noProfiles completedUnder (.record 0 (Server.nthEnv 13) agentActor) :=
    hRun.check_at
  have hDone : statusOf completedUnder.db.workUnits ⟨5⟩ = some .done := by decide +kernel
  have hAfter : statusOf (completedUnder.step Server.engineConfig noProfiles
      (.record 0 (Server.nthEnv 13) agentActor)).db.workUnits ⟨5⟩ = some .inProgress := by
    decide +kernel
  cases hAfter.symm.trans (hSafe.settled ⟨5⟩ hDone)

end Dispatch
end Daruma
