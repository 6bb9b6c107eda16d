import Daruma.Storage.WorkUnitRepo

/-! What events, claims and reverts do to the units and to the contracts between
them. -/
namespace Daruma

open KeyedTable

def WorkUnitStatus.isDispatchable : WorkUnitStatus → Bool
  | .todo | .ready => true
  | _ => false

def WorkUnitEvent.workUnitId : WorkUnitEvent → WorkUnitId
  | .workUnitCreated workUnit => workUnit.id
  | .workUnitClaimed workUnitId .. | .workUnitStarted workUnitId _ | .workUnitBlocked workUnitId ..
  | .workUnitCompleted workUnitId .. | .workUnitReleased workUnitId _ => workUnitId

def WorkUnitEvent.statusAfter (event : WorkUnitEvent) (status : WorkUnitStatus) : WorkUnitStatus :=
  match event with
  | .workUnitCreated workUnit => workUnit.status
  | .workUnitClaimed .. | .workUnitStarted .. => .inProgress
  | .workUnitBlocked .. => .blocked
  | .workUnitCompleted .. => .done
  | .workUnitReleased .. => if status = .inProgress then .ready else status

def WorkUnitEvent.target : WorkUnitEvent → WorkUnitStatus
  | .workUnitCreated workUnit => workUnit.status
  | .workUnitClaimed .. | .workUnitStarted .. => .inProgress
  | .workUnitBlocked .. => .blocked
  | .workUnitCompleted .. => .done
  | .workUnitReleased .. => .ready

def WorkUnitEvent.ends (id : WorkUnitId) : WorkUnitEvent → Bool
  | .workUnitCompleted workUnitId .. | .workUnitReleased workUnitId _ => workUnitId = id
  | _ => false

namespace WorkUnitRepo

variable {workUnits : WorkUnits} {id id' : WorkUnitId} {instant : Timestamp} {event : WorkUnitEvent}

def statusOf (workUnits : WorkUnits) (id : WorkUnitId) : Option WorkUnitStatus :=
  (workUnits.find? id).map WorkUnit.status

variable {f : WorkUnit → WorkUnit}

theorem find?_updateFields (hId : ∀ unit, (f unit).id = unit.id) : (updateFields workUnits id instant f).find? id' =
      if id = id' then (workUnits.find? id').map fun unit => { f unit with updatedAt := instant }
      else workUnits.find? id' :=
  find?_modify workUnits id id' _ hId

theorem statusOf_updateFields {statusAfter : WorkUnitStatus → WorkUnitStatus}
    (hId : ∀ unit, (f unit).id = unit.id) (hStatus : ∀ unit, (f unit).status = statusAfter unit.status) :
    statusOf (updateFields workUnits id instant f) id' =
      if id = id' then (statusOf workUnits id').map statusAfter else statusOf workUnits id' := by
  unfold statusOf
  rw [find?_updateFields hId]
  split
  · rw [Option.map_map, Option.map_map]
    exact congrArg (Option.map · _) (funext hStatus)
  · rfl

theorem find?_applyWorkUnitEvent_of_ne (h : event.workUnitId ≠ id) :
    (applyWorkUnitEvent workUnits instant event).find? id = workUnits.find? id := by
  cases event with
  | workUnitCreated workUnit =>
    rw [applyWorkUnitEvent, find?_insertOrReplace]
    exact if_neg h
  | workUnitClaimed | workUnitStarted | workUnitBlocked | workUnitCompleted | workUnitReleased =>
    rw [applyWorkUnitEvent, find?_updateFields]
    · exact if_neg h
    · exact fun _ => rfl

/-- What a command that does not create a unit records of it. Only a release is
recorded of a closed unit. -/
inductive Records (workUnits : WorkUnits) (id : WorkUnitId) : WorkUnitEvent → Prop where
  | released (instant : Timestamp) : Records workUnits id (.workUnitReleased id instant)
  | started {unit : WorkUnit} (hFound : workUnits.find? id = some unit)
      (hOpen : unit.status.isTerminal = false) (instant : Timestamp) :
      Records workUnits id (.workUnitStarted id instant)
  | blocked {unit : WorkUnit} (hFound : workUnits.find? id = some unit)
      (hOpen : unit.status.isTerminal = false) (reason : String) (instant : Timestamp) :
      Records workUnits id (.workUnitBlocked id reason instant)
  | completed (outcome : String) (artifacts : List String) (units : List WorkUnitId)
      (completedBy : Option AgentId) (elapsed : Option Int) (instant : Timestamp) :
      Records workUnits id (.workUnitCompleted id outcome artifacts units completedBy elapsed instant)

namespace Records

theorem workUnitId_eq (h : Records workUnits id event) : event.workUnitId = id := by
  cases h <;> rfl

theorem statusOf_eq (h : Records workUnits id event) :
    statusOf (applyWorkUnitEvent workUnits instant event) id = (statusOf workUnits id).map event.statusAfter := by
  have hWritten : ∀ f, applyWorkUnitEvent workUnits instant event = updateFields workUnits id instant f →
      (∀ unit, (f unit).id = unit.id) → (∀ unit, (f unit).status = event.statusAfter unit.status) →
      statusOf (applyWorkUnitEvent workUnits instant event) id = (statusOf workUnits id).map event.statusAfter := by
    intro f hEq hId hStatus
    rw [hEq, statusOf_updateFields hId hStatus, if_pos rfl]
  cases h with
  | released | started | blocked | completed => exact hWritten _ rfl (fun _ => rfl) fun _ => rfl

theorem done (h : Records workUnits id event) (hDone : statusOf workUnits id' = some .done) :
    statusOf (applyWorkUnitEvent workUnits instant event) id' = some .done := by
  by_cases hSame : id = id'
  · subst hSame
    rw [h.statusOf_eq, hDone]
    have hClosed : ∀ unit, workUnits.find? id = some unit → unit.status.isTerminal = true := by
      intro unit hFound
      rw [statusOf, hFound] at hDone
      exact congrArg WorkUnitStatus.isTerminal (Option.some.inj hDone)
    cases h with
    | released | completed => rfl
    | started hFound hOpen => exact absurd (hOpen.symm.trans (hClosed _ hFound)) Bool.false_ne_true
    | blocked hFound hOpen => exact absurd (hOpen.symm.trans (hClosed _ hFound)) Bool.false_ne_true
  · rw [statusOf, find?_applyWorkUnitEvent_of_ne (h.workUnitId_eq ▸ hSame)]
    exact hDone

theorem held (h : Records workUnits id event)
    (hHeld : ∀ status, statusOf workUnits id' = some status → status.isDispatchable = false) :
    event.ends id' = true ∨ ∀ status, statusOf (applyWorkUnitEvent workUnits instant event) id' = some status →
      status.isDispatchable = false := by
  by_cases hSame : id = id'
  · subst hSame
    rw [h.statusOf_eq]
    cases h with
    | released | completed => exact .inl (decide_eq_true rfl)
    | started | blocked =>
      refine .inr fun status hStatus => ?_
      obtain ⟨_, _, rfl⟩ := Option.map_eq_some_iff.mp hStatus
      rfl
  · rw [statusOf, find?_applyWorkUnitEvent_of_ne (h.workUnitId_eq ▸ hSame)]
    exact .inr hHeld

end Records

theorem mem_of_preferred {fit : WorkUnit → Int} {units : List WorkUnit} {unit : WorkUnit}
    (h : preferred fit units = some unit) : unit ∈ units := by
  induction units generalizing unit with
  | nil => cases h
  | cons first rest ih =>
    unfold preferred at h
    cases hRest : preferred fit rest with
    | none =>
      rw [hRest] at h
      exact Option.some.inj h ▸ List.mem_cons_self
    | some other =>
      rw [hRest] at h
      dsimp only at h
      split at h
      · exact List.mem_cons_of_mem first (ih (hRest.trans h))
      · exact Option.some.inj h ▸ List.mem_cons_self

end WorkUnitRepo

namespace HandoffRepo

/-- A contract that is not accepted keeps the unit from being given to an agent. -/
def BlocksInto (handoffs : Handoffs) (id : WorkUnitId) : Prop :=
  ∃ contract ∈ handoffs, contract.toWorkUnitId = id ∧ contract.status ≠ .accepted

/-- The contracts after an event, also when it was refused. -/
def applied (handoffs : Handoffs) (envelope : EventEnvelope) : Handoffs :=
  (applyEvent handoffs envelope).toOption.getD handoffs

variable {handoffs : Handoffs} {id : WorkUnitId} {contract : HandoffContract}

theorem blocksInto_upsert {written : Handoffs} (h : upsert handoffs contract = .ok written)
    (hNew : contract.toWorkUnitId ≠ id) (hOld : ∀ old, handoffs.find? contract.id = some old → old.toWorkUnitId ≠ id)
    (hBlocks : BlocksInto written id) : BlocksInto handoffs id := by
  obtain ⟨row, hMem, hInto, hStatus⟩ := hBlocks
  unfold upsert at h
  split at h
  · rename_i old hFound
    cases h
    rcases mem_replace.mp hMem with ⟨rfl, _⟩ | ⟨hMem, _⟩
    · exact absurd hInto (hOld old hFound)
    · exact ⟨row, hMem, hInto, hStatus⟩
  · split at h
    · cases h
    · cases h
      rcases mem_upsert.mp hMem with rfl | ⟨hMem, _⟩
      · exact absurd hInto hNew
      · exact ⟨row, hMem, hInto, hStatus⟩

theorem blocksInto_modify {handoffId : HandoffId} {f : HandoffContract → HandoffContract}
    (hKey : ∀ contract, (f contract).id = contract.id)
    (hInto : ∀ contract, (f contract).toWorkUnitId = contract.toWorkUnitId)
    (hStatus : ∀ contract ∈ handoffs, contract.id = handoffId → (f contract).status ≠ .accepted →
      contract.status ≠ .accepted)
    (hBlocks : BlocksInto (handoffs.modify handoffId f) id) : BlocksInto handoffs id := by
  obtain ⟨row, hMem, hRow, hNotAccepted⟩ := hBlocks
  rcases (mem_modify hKey).mp hMem with ⟨old, hOld, hId, rfl⟩ | ⟨hOld, _⟩
  · exact ⟨old, hOld, (hInto old).symm.trans hRow, hStatus old hOld hId hNotAccepted⟩
  · exact ⟨row, hOld, hRow, hNotAccepted⟩

end HandoffRepo

namespace WorkUnitRepo

/-- A claim of an agent: a unit that could be given to it is now in progress, and
is the only one that changed. -/
structure Claims (db : Database) (agentId : AgentId) (unit : WorkUnit) (workUnits : WorkUnits) : Prop where
  free : ∃ status, statusOf db.workUnits unit.id = some status ∧ status.isDispatchable = true
  received : ¬HandoffRepo.BlocksInto db.handoffs unit.id
  inProgress : unit.status = .inProgress
  found : ∀ id, workUnits.find? id = if unit.id = id then some unit else db.workUnits.find? id

variable {now : Timestamp} {agentId : AgentId}

theorem tryClaimNext_cases {fit : AgentId → Timestamp → WorkUnit → Int} {db db' : Database} {taskId : TaskId} {ttl : Duration} {claimed : Option WorkUnit}
    (h : tryClaimNext fit db now taskId agentId ttl = (claimed, db')) : (claimed = none ∧ db' = db) ∨
      ∃ unit workUnits, claimed = some unit ∧ db' = { db with workUnits := workUnits } ∧
        Claims db agentId unit workUnits := by
  unfold tryClaimNext at h
  split at h
  · cases h
    exact .inl ⟨rfl, rfl⟩
  · rename_i old hPreferred
    obtain ⟨hMem, hDispatchable⟩ := List.mem_filter.mp (mem_of_preferred hPreferred)
    have hFound : db.workUnits.find? old.id = some old := find?_of_mem (mem_rows.mp hMem)
    cases h
    let f : WorkUnit → WorkUnit := fun unit =>
      { unit with ownerAgentId := some agentId, claimExpiresAt := some (now + ttl), status := .inProgress }
    have hRow : ∀ id, (updateFields db.workUnits old.id now f).find? id =
        if old.id = id then some { f old with updatedAt := now } else db.workUnits.find? id := by
      intro id
      have hKeys : ∀ unit, (f unit).id = unit.id := fun _ => rfl
      rw [find?_updateFields hKeys]
      split
      · rename_i hSame
        rw [← hSame, hFound]
        rfl
      · rfl
    simp only [dispatchable, Bool.and_eq_true, Bool.not_eq_true', List.any_eq_false] at hDispatchable
    obtain ⟨⟨⟨_, hStatus⟩, _⟩, hReceived⟩ := hDispatchable
    refine .inr ⟨_, _, (hRow old.id).trans (if_pos rfl), rfl, ⟨⟨old.status, ?_, ?_⟩, ?_, rfl, hRow⟩⟩
    · change (db.workUnits.find? old.id).map WorkUnit.status = _
      rw [hFound]
      rfl
    · rcases Bool.or_eq_true_iff.mp hStatus with hTodo | hReady
      · rw [of_decide_eq_true hTodo]
        rfl
      · rw [of_decide_eq_true hReady]
        rfl
    · rintro ⟨contract, hContract, hInto, hNotAccepted⟩
      refine hReceived contract (mem_rows.mpr hContract) ?_
      exact ⟨decide_eq_true hInto, decide_eq_true hNotAccepted⟩

theorem find?_revertClaim {workUnits : WorkUnits} {id id' : WorkUnitId}
    (h : id ≠ id') : (revertClaim workUnits now id agentId).find? id' = workUnits.find? id' := by
  unfold revertClaim
  rw [find?_modify]
  · exact if_neg h
  · intro unit
    split <;> rfl

end WorkUnitRepo
end Daruma
