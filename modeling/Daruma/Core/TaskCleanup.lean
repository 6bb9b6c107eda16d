import Daruma.Core.GateCoverage
import Daruma.Core.LifecycleSteps

/-! What the end of a task does to what is held on it. A transition or a deletion
releases the claims of its task, and a transition its leases; a terminal status
that a command writes directly, and the leases of a deleted task, stay behind. -/
namespace Daruma

open Outcome List
open EventEnvelope (payload)
open Projections (applyEvents SameLifecycles)
open Database (statusOf_eq lifecycleOf statusOf)

namespace Projections

variable {env : Env} {envelope : EventEnvelope} {db db' : Database} {unclaimed unleased : TaskId → Prop}

variable {step : Database → Result Database}

theorem projectors_onlyFrees (hEvent : envelope.payload.OnlyFrees unclaimed unleased) (hStep : step ∈ projectors env envelope)
    (h : step db = .ok db') : OnlyFrees unclaimed unleased db db' := by
  obtain ⟨_, hWrote⟩ := exists_wrote hStep h
  cases hWrote with
  | claims hApplied => exact AgentClaimRepo.applyEvent_onlyFrees hEvent hApplied
  | leases hApplied => exact hApplied ▸ WorkLeaseRepo.applyEvent_onlyFrees hEvent
  | _ => exact .of_eq rfl rfl

variable {envelopes : List EventEnvelope}

variable (hEvents : ∀ envelope ∈ envelopes, envelope.payload.OnlyFrees unclaimed unleased)

include hEvents in
theorem batch_onlyFrees (hStep : step ∈ batchProjectors env envelopes)
    (before after : Database) (h : step before = .ok after) : OnlyFrees unclaimed unleased before after := by
  obtain ⟨envelope, hMem, hProjector⟩ := mem_flatMap.mp hStep
  exact projectors_onlyFrees (hEvents envelope hMem) hProjector h

include hEvents in
theorem applyEvents_onlyFrees {outcome : Except CoreError Unit}
    (h : applyEvents env envelopes db = (outcome, db')) : OnlyFrees unclaimed unleased db db' :=
  Stateful.inTurn_rel OnlyFrees.refl (fun _ _ _ => OnlyFrees.trans) (fun _ hStep => batch_onlyFrees hEvents hStep) h

include hEvents in
theorem applyEvents_unleased
    (h : applyEvents env envelopes db = (.ok (), db')) {id : TaskId} {actor : Actor} {instant : Timestamp}
    (hClosed : .task (.taskClosed id actor instant) ∈ envelopes.map payload)
    {lease : WorkLease} (hLease : lease ∈ db'.workLeases) : lease.taskId ≠ id := by
  obtain ⟨envelope, hMem, hPayload⟩ := mem_map.mp hClosed
  have hProjector : (fun db => .ok (WorkLeaseRepo.applyEvent db envelope)) ∈ batchProjectors env envelopes :=
    mem_flatMap.mpr ⟨envelope, hMem, by simp [projectors]⟩
  obtain ⟨before, after, _, hTaken, hAfter⟩ := Stateful.inTurn_taken OnlyFrees.refl
    (fun _ _ _ => OnlyFrees.trans) (fun _ hStep => batch_onlyFrees hEvents hStep) h hProjector
  have hLeft : lease ∈ after.workLeases := hAfter.leases lease hLease
  cases hTaken
  rw [WorkLeaseRepo.applyEvent, hPayload] at hLeft
  exact of_decide_eq_true (KeyedTable.mem_filter.mp hLeft).2

end Projections

namespace AutoAppend

variable {config : Config} {env : Env}

/-- The lines of the logs release nothing. -/
def Holding (before after : Database) : Prop := OnlyFrees (fun _ => False) (fun _ => False) before after

theorem autoAppendLogs_holding (db : Database) (envelopes : List EventEnvelope) :
    Holding db (autoAppendLogs config env db envelopes) := by
  obtain ⟨_, _, _, _, _, _, hLines, _⟩ := autoAppendLogs_lines envelopes db
  rw [hLines]
  exact OnlyFrees.of_eq rfl rfl

end AutoAppend

def Command.CanEnd (command : Command) : Prop := command.isAboutTasks = true ∨ command.takesIn = true

theorem Command.CanEnd.is {command : Command} (h : command.CanEnd) : (∃ about, command = .task about) ∨
      ∃ plan tasks planId, command = .plan (.materializePlan plan tasks planId) := by
  rcases h with hAbout | hTakesIn
  · unfold Command.isAboutTasks at hAbout
    split at hAbout
    · exact .inl ⟨_, rfl⟩
    · cases hAbout
  · unfold Command.takesIn at hTakesIn
    split at hTakesIn
    · exact .inl ⟨_, rfl⟩
    · exact .inl ⟨_, rfl⟩
    · exact .inr ⟨_, _, _, rfl⟩
    · cases hTakesIn

def Event.Unattached (event : Event) : Prop := (∀ lease, event ≠ .lease lease) ∧ ∀ claim, event ≠ .claim claim

theorem Sanctioned.unattached {db : Database} {env : Env} {command : Command} {event : Event}
    (h : Sanctioned db env command event) (hCommand : command.CanEnd) : event.Unattached := by
  refine ⟨?_, ?_⟩
  · rintro lease rfl
    obtain ⟨_, hLease⟩ := h
    rcases hCommand.is with ⟨_, rfl⟩ | ⟨_, _, _, rfl⟩ <;> cases hLease
  · rintro claim rfl
    have hQuiet : command.isQuiet = true := h
    rcases hCommand.is with ⟨_, rfl⟩ | ⟨_, _, _, rfl⟩ <;> cases hQuiet

namespace Handler

variable {config : Config} {db db' : Database} {env : Env} {caller : Caller} {actor claimed : Actor}
  {command : Command}

theorem persist_eq (hCommand : command.CanEnd) (envelopes : List EventEnvelope) :
    persist db env caller actor command envelopes =
      if envelopes.any fun envelope => isTaskLifecycle envelope.payload then
        AgentClaimRepo.recordTaskLifecycle db env actor envelopes
      else appendBatch db envelopes := by
  unfold persist
  rcases hCommand.is with ⟨_, rfl⟩ | ⟨_, _, _, rfl⟩
  · cases caller.agentId <;> rfl
  · cases caller.agentId <;> rfl

theorem persist_released (hCommand : command.CanEnd) {envelopes persisted : List EventEnvelope}
    (h : persist db env caller actor command envelopes = .ok (persisted, db')) :
    ∃ released, (∀ claim ∈ released, EndsIn (envelopes.map payload) claim.taskId) ∧
      persisted.map payload = envelopes.map payload ++
        (AgentClaimRepo.releasedEvents env actor released).map payload ∧
      ∀ row, row ∈ db'.agentClaims ↔
        row ∈ db.agentClaims ∧ ¬EndsIn (envelopes.map payload) row.taskId := by
  rw [persist_eq hCommand] at h
  split at h
  · unfold AgentClaimRepo.recordTaskLifecycle at h
    dsimp only at h
    refine ⟨_, fun claim hClaim => ?_, (appendBatch_ok h).1.trans map_append, fun row => ?_⟩
    · exact AgentClaimRepo.mem_cleanupTasks.mp (AgentClaimRepo.taskId_of_released hClaim)
    · rw [AgentClaimRepo.appendBatch_agentClaims h, ← AgentClaimRepo.mem_cleanupTasks]
      exact AgentClaimRepo.mem_releaseTasks
  · rename_i hNone
    have hNotEnded : ∀ id, ¬EndsIn (envelopes.map payload) id := by
      rintro id ⟨event, hMem, hEnded⟩
      obtain ⟨envelope, hEnvelope, rfl⟩ := mem_map.mp hMem
      refine hNone (any_eq_true.mpr ⟨envelope, hEnvelope, ?_⟩)
      unfold Event.endedTask at hEnded
      unfold isTaskLifecycle
      split at hEnded
      · rename_i hPayload
        rw [hPayload]
      · rename_i hPayload
        rw [hPayload]
      · cases hEnded
    refine ⟨[], fun _ hMem => absurd hMem not_mem_nil, ?_, fun row => ?_⟩
    · rw [(appendBatch_ok h).1]
      exact (append_nil _).symm
    · rw [AgentClaimRepo.appendBatch_agentClaims h]
      exact ⟨fun hRow => ⟨hRow, hNotEnded _⟩, And.left⟩

variable {batch : List Event} {relations : Relations} {trail : GateStage.Trail}
  {persisted : List EventEnvelope} {appended applied : Database}

/-- What persisting a batch does to claims and leases: it releases the claims of
the tasks that the batch ends, and its events release no more. -/
structure Frees (db appended : Database) (events : List Event) : Prop where
  free : ∀ event ∈ events, event.OnlyFrees (EndsIn events) (EndsIn events)
  claims : ∀ row, row ∈ appended.agentClaims ↔ row ∈ db.agentClaims ∧ ¬EndsIn events row.taskId
  leases : appended.workLeases = db.workLeases

variable {event : Event}

theorem onlyFrees_of_unattached {events : List Event} (hMem : event ∈ events)
    (h : event.Unattached) : event.OnlyFrees (EndsIn events) (EndsIn events) := by
  cases event with
  | lease event => exact absurd rfl (h.1 event)
  | claim event => exact absurd rfl (h.2 event)
  | task event =>
    cases event with
    | taskClosed taskId actor instant => exact ⟨_, hMem, rfl⟩
    | _ => exact trivial
  | _ => exact trivial

theorem unattached_task (event : TaskEvent) : (Event.task event).Unattached := ⟨nofun, nofun⟩

theorem unattached_audit (event : AuditEvent) : (Event.audit event).Unattached := ⟨nofun, nofun⟩

/-- What is persisted of such a command before the releases is about no claim and
no lease. -/
theorem Accepted.unattached
    (h : Accepted config env caller command claimed db batch relations trail persisted appended)
    (hCommand : command.CanEnd)
    (hMem : event ∈ (withProvenance command (envelopesOf (env.part 2) (attributedActor caller command claimed)
      (trail.surround batch))).map payload) : event.Unattached := by
  obtain ⟨f, hRelinking, hPayloads⟩ := withProvenance_payloads command (envelopesOf (env.part 2)
    (attributedActor caller command claimed) (trail.surround batch))
  rw [hPayloads, envelopesOf_payload, GateStage.Trail.surround] at hMem
  obtain ⟨built, hBuilt, rfl⟩ := mem_map.mp hMem
  have hUnattached : built.Unattached := by
    rcases mem_append.mp hBuilt with hBuilt | hMetric
    · rcases mem_append.mp hBuilt with hAudit | hBuilt
      · obtain ⟨audit, _, rfl⟩ := mem_map.mp hAudit
        exact unattached_audit _
      · exact (h.sanctioned built hBuilt).unattached hCommand
    · obtain ⟨metric, _, rfl⟩ := mem_map.mp hMetric
      exact unattached_audit _
  rcases hRelinking with rfl | ⟨origin, rfl⟩
  · exact hUnattached
  · unfold relinkEvent
    split
    · exact unattached_task _
    · exact hUnattached

theorem Accepted.frees (h : Accepted config env caller command claimed db batch relations trail persisted appended)
    (hCommand : command.CanEnd) : Frees db appended (persisted.map payload) := by
  obtain ⟨released, hReleased, hPayloads, hClaims⟩ := persist_released hCommand h.stored
  have hUnattached : ∀ event ∈ (withProvenance command (envelopesOf (env.part 2)
      (attributedActor caller command claimed) (trail.surround batch))).map payload,
      event.Unattached := fun _ => h.unattached hCommand
  generalize withProvenance command (envelopesOf (env.part 2) (attributedActor caller command claimed)
    (trail.surround batch)) = envelopes at hReleased hPayloads hClaims hUnattached
  have hEnds : ∀ id, EndsIn (persisted.map payload) id ↔
      EndsIn (envelopes.map payload) id := by
    intro id
    rw [hPayloads, EndsIn.append_iff]
    refine or_iff_left fun ⟨event, hMem, hEnded⟩ => ?_
    obtain ⟨envelope, hEnvelope, rfl⟩ := mem_map.mp hMem
    obtain ⟨_, _, _, hRelease⟩ := releasedEvents_payload hEnvelope
    rw [hRelease] at hEnded
    cases hEnded
  refine ⟨fun event hMem => ?_, fun row => (hClaims row).trans (and_congr_right' (not_congr (hEnds _).symm)), ?_⟩
  · rcases mem_append.mp (hPayloads ▸ hMem) with hBuilt | hRelease
    · exact onlyFrees_of_unattached hMem (hUnattached event hBuilt)
    · obtain ⟨envelope, hEnvelope, rfl⟩ := mem_map.mp hRelease
      obtain ⟨n, hn, rfl⟩ := mem_mapIdx.mp hEnvelope
      exact (hEnds _).mpr (hReleased _ (getElem_mem hn))
  · obtain ⟨_, _, _, _, _, rfl⟩ := h.frame
    rfl

end Handler

/-- A task is there before, and after it is gone or has entered a terminal status. -/
def EndsTask (before after : Database) (id : TaskId) : Prop :=
  ∃ status, before.statusOf id = some status ∧ (after.statusOf id = none ∨
    status.isTerminal = false ∧ ∃ ended, after.statusOf id = some ended ∧ ended.isTerminal = true)

def Unheld (db : Database) (id : TaskId) : Prop :=
  (∀ claim ∈ db.agentClaims, claim.taskId ≠ id) ∧ ∀ lease ∈ db.workLeases, lease.taskId ≠ id

def KeepsHolds (before after : Database) (id : TaskId) : Prop :=
  (∀ claim ∈ before.agentClaims, claim.taskId = id → claim ∈ after.agentClaims) ∧
    ∀ lease ∈ before.workLeases, lease.taskId = id → lease ∈ after.workLeases

variable {after last before : Database} {id : TaskId}

theorem AutoAppend.Holding.unheld (h : Holding after last) (hUnheld : Unheld after id) : Unheld last id :=
  ⟨fun claim hClaim => hUnheld.1 claim (h.claims claim hClaim),
    fun lease hLease => hUnheld.2 lease (h.leases lease hLease)⟩

theorem AutoAppend.Holding.keepsHolds (h : Holding after last)
    (hKept : KeepsHolds before after id) : KeepsHolds before last id :=
  ⟨fun claim hClaim hTask => h.claimsKept claim (hKept.1 claim hClaim hTask) not_false,
    fun lease hLease hTask => h.leasesKept lease (hKept.2 lease hLease hTask) not_false⟩

theorem endsTask_congr
    (h : SameLifecycles after last) : EndsTask before last id ↔ EndsTask before after id := by
  have hStatus : last.statusOf id = after.statusOf id := by
    rw [statusOf_eq, h id, ← statusOf_eq]
  unfold EndsTask
  rw [hStatus]

theorem not_endsTask_of_same (h : after.lifecycleOf id = before.lifecycleOf id) : ¬EndsTask before after id := by
  rintro ⟨status, hBefore, hGone | ⟨hOpen, ended, hAfter, hTerminal⟩⟩
  · rw [statusOf_eq, h, ← statusOf_eq, hBefore] at hGone
    cases hGone
  · rw [statusOf_eq, h, ← statusOf_eq, hBefore] at hAfter
    cases hAfter
    cases hOpen.symm.trans hTerminal

namespace Handler

variable {config : Config} {db : Database} {env : Env} {caller : Caller} {claimed : Actor} {command : Command}
  {batch : List Event} {relations : Relations} {trail : GateStage.Trail}
  {persisted : List EventEnvelope} {appended applied : Database}

variable (h : Accepted config env caller command claimed db batch relations trail persisted appended)

include h in
theorem Accepted.lifecycles
    (hApplied : applyEvents (env.part 4) persisted appended = (.ok (), applied)) (id : TaskId) :
    applied.lifecycleOf id = lifecycleAfter (persisted.map payload) id (db.lifecycleOf id) := by
  obtain ⟨first, left, hSplit, hAll, hEffect⟩ := Projections.applyEvents_lifecycles hApplied h.namesCreated
  rw [hEffect id, hSplit, hAll rfl, append_nil, lifecycleOf, h.tasks_eq, ← lifecycleOf]

include h in
theorem Accepted.completes {id : TaskId} {completedAt : Timestamp} {note : Option CompletionNote}
    (hMem : .task (.taskCompleted id completedAt note) ∈ persisted.map payload) :
    ∃ completionNote, command = .task (.completeTask id completionNote) :=
  h.sanctioned _ (h.mem_batch hMem rfl)

variable {other ended : TaskId}

theorem Accepted.completion_spares {id : TaskId} {completionNote : Option CompletionNote}
    (h : Accepted config env caller (.task (.completeTask id completionNote)) claimed db batch relations trail
      persisted appended) (hOther : other ≠ id) : Spares (persisted.map payload) other := by
  refine (h.carries rfl).spares other ?_
  obtain ⟨built, hBuilt, rfl⟩ := h.of_task
  have hMoves : MovesAmong db [id] built := TaskCommands.completeTask_transitions _ _ _ hBuilt
  have hBuiltSpares : Spares built other :=
    (hMoves other).resolve_right fun ⟨hIn, _⟩ => hOther (mem_singleton.mp hIn)
  exact ((Carries.authenticated caller built).spares other hBuiltSpares).append (SparesAll.map (fun _ _ _ _ => rfl) other)

include h in
theorem Accepted.not_endsIn_of_takesIn
    (hTakesIn : command.takesIn = true) (id : TaskId) : ¬EndsIn (persisted.map EventEnvelope.payload) id := by
  rintro ⟨payload, hMem, hEnded⟩
  have hTransition : payload.isTransition = true := by
    unfold Event.endedTask at hEnded
    split at hEnded <;> first | rfl | cases hEnded
  have hNot : payload.isTransition = false := by
    refine h.payload_rule (P := fun event => event.isTransition = false) (fun hRelinking hEvent => ?_)
      (fun _ => rfl) (fun _ _ _ => rfl) payload hMem
    rw [hRelinking.reads Event.isTransition fun _ _ => rfl]
    exact not_transition_of_not_plain (h.sanctioned _ hEvent) fun hPlain => by
      rw [hPlain.1] at hTakesIn
      cases hTakesIn
  rw [hNot] at hTransition
  cases hTransition

include h in
theorem Accepted.ends_of_endsIn (hApplied : applyEvents (env.part 4) persisted appended = (.ok (), applied))
    (hEnded : EndsTask db applied ended) (hIn : EndsIn (persisted.map payload) other) :
    EndsTask db applied other := by
  have hTakesIn : command.takesIn = false :=
    Bool.eq_false_iff.mpr fun hTakesIn => h.not_endsIn_of_takesIn hTakesIn other hIn
  have hAfter := h.lifecycles hApplied other
  cases h.effect hTakesIn other with
  | spared hSpares => exact absurd hIn hSpares.not_endsIn
  | patched _ _ _ hUnended => exact absurd hIn hUnended
  | deleted task hFound hCommand hRow _ _ =>
    refine ⟨task.status, ?_, .inl ?_⟩
    · rw [statusOf, hFound]
      rfl
    · rw [statusOf_eq, hAfter, hRow]
      rfl
  | moved task toStatus hMoved =>
    obtain ⟨hTo, hFrom⟩ := hMoved.ends hIn
    rcases hFrom with hOpen | ⟨completedAt, note, hCompleted⟩
    · refine ⟨task.status, ?_, .inr ⟨hOpen, toStatus, ?_, hTo⟩⟩
      · rw [statusOf, hMoved.found]
        rfl
      · obtain ⟨closed, hEffect, _⟩ := hMoved.effect task.completedAt.isSome
        have hBefore : db.lifecycleOf other = some (task.status, task.completedAt.isSome) := by
          rw [lifecycleOf, TaskRepo.lifecycleOf, hMoved.found]
          rfl
        rw [statusOf_eq, hAfter, hBefore, hEffect]
        rfl
    · obtain ⟨completionNote, rfl⟩ := h.completes hCompleted
      by_cases hSame : ended = other
      · exact hSame ▸ hEnded
      · refine absurd hEnded (not_endsTask_of_same ?_)
        rw [h.lifecycles hApplied ended, (h.completion_spares hSame).after]

include h in
theorem Accepted.stays_unheld (hCommand : command.CanEnd)
    (hApplied : applyEvents (env.part 4) persisted appended = (.ok (), applied)) {id : TaskId}
    (hUnheld : Unheld db id) : Unheld applied id := by
  have hFrees := h.frees hCommand
  have hOnly := Projections.applyEvents_onlyFrees
    (fun envelope hMem => hFrees.free _ (mem_map_of_mem hMem)) hApplied
  refine ⟨fun claim hClaim => ?_, fun lease hLease => ?_⟩
  · exact hUnheld.1 claim ((hFrees.claims claim).mp (hOnly.claims claim hClaim)).1
  · exact hUnheld.2 lease (hFrees.leases ▸ hOnly.leases lease hLease)

/-- A status that a command writes directly, and the deletion of a task, leave
nothing held on a task that they end. -/
def LeavesUnheld (db : Database) (env : Env) (command : Command) : Prop :=
  (∀ id (status before : Status), status.isTerminal = true → command.WritesDirectly db (builderEnv env) id status →
    db.statusOf id = some before → before.isTerminal = false → Unheld db id) ∧
    ∀ id, command = .task (.deleteTask id) → ∀ lease ∈ db.workLeases, lease.taskId ≠ id

include h in
theorem Accepted.unheld (hCommand : command.CanEnd) (hLeaves : LeavesUnheld db env command)
    (hApplied : applyEvents (env.part 4) persisted appended = (.ok (), applied)) {id : TaskId}
    (hEnded : EndsTask db applied id) : Unheld applied id := by
  have hFrees := h.frees hCommand
  have hEvents : ∀ envelope ∈ persisted, envelope.payload.OnlyFrees (EndsIn (persisted.map payload))
      (EndsIn (persisted.map payload)) :=
    fun envelope hMem => hFrees.free _ (mem_map_of_mem hMem)
  have hOnly := Projections.applyEvents_onlyFrees hEvents hApplied
  have hClaimsGone : EndsIn (persisted.map payload) id →
      ∀ claim ∈ applied.agentClaims, claim.taskId ≠ id := by
    intro hIn claim hClaim hTask
    exact ((hFrees.claims claim).mp (hOnly.claims claim hClaim)).2 (hTask.symm ▸ hIn)
  obtain ⟨status, hBefore, hAfter⟩ := hEnded
  have hDirect : ∀ written : Status, command.WritesDirectly db (builderEnv env) id written →
      applied.statusOf id = some written → Unheld applied id := by
    intro written hWrites hWritten
    rcases hAfter with hGone | ⟨hOpen, ended, hEnded, hTerminal⟩
    · cases hGone.symm.trans hWritten
    · cases hEnded.symm.trans hWritten
      exact h.stays_unheld hCommand hApplied (hLeaves.1 id _ status hTerminal hWrites hBefore hOpen)
  have hNotSame : applied.lifecycleOf id ≠ db.lifecycleOf id :=
    fun hSame => not_endsTask_of_same hSame ⟨status, hBefore, hAfter⟩
  cases hTakesIn : command.takesIn with
  | true =>
    have hNotPlain : ¬command.IsPlain := fun hPlain => Bool.noConfusion (hPlain.1.symm.trans hTakesIn)
    rcases h.brings hNotPlain hApplied id with hKept | ⟨intake, hIntake, hNew, hId, hBrought⟩
    · exact absurd hKept hNotSame
    · refine hDirect intake.status (.inr ⟨intake, hIntake, hNew, hId, rfl⟩) ?_
      rw [statusOf_eq, hBrought]
      rfl
  | false =>
    have hRow := h.lifecycles hApplied id
    cases h.effect hTakesIn id with
    | spared hSpares => exact absurd (hRow.trans (hSpares.after _)) hNotSame
    | patched written hPatches hPatched _ =>
      refine hDirect written (.inl hPatches) ?_
      rw [hPatched] at hRow
      obtain ⟨row, hOld, _⟩ := Option.map_eq_some_iff.mp (statusOf_eq ▸ hBefore)
      rw [statusOf_eq, hRow, hOld]
      rfl
    | deleted task hFound hDelete _ hDeleted _ =>
      refine ⟨hClaimsGone ⟨_, hDeleted, rfl⟩, fun lease hLease => ?_⟩
      exact hLeaves.2 id hDelete lease (hFrees.leases ▸ hOnly.leases lease hLease)
    | moved task toStatus hMoved =>
      have hFrom : task.status = status := by
        rw [statusOf, hMoved.found] at hBefore
        exact Option.some.inj hBefore
      have hTo : applied.statusOf id = some toStatus := by
        obtain ⟨closed, hEffect, _⟩ := hMoved.effect task.completedAt.isSome
        have hOld : db.lifecycleOf id = some (task.status, task.completedAt.isSome) := by
          rw [lifecycleOf, TaskRepo.lifecycleOf, hMoved.found]
          rfl
        rw [statusOf_eq, hRow, hOld, hEffect]
        rfl
      rcases hAfter with hGone | ⟨hOpen, ended, hEnded, hTerminal⟩
      · cases hGone.symm.trans hTo
      · cases hEnded.symm.trans hTo
        obtain ⟨actor, instant, hClosed⟩ := hMoved.closes (hFrom ▸ hOpen) hTerminal
        exact ⟨hClaimsGone ⟨_, hClosed, rfl⟩,
          fun lease hLease => Projections.applyEvents_unleased hEvents hApplied hClosed hLease⟩

include h in
theorem Accepted.keepsHolds (hCommand : command.CanEnd)
    (hApplied : applyEvents (env.part 4) persisted appended = (.ok (), applied))
    (hEnded : EndsTask db applied ended) (hOther : ¬EndsTask db applied other) : KeepsHolds db applied other := by
  have hFrees := h.frees hCommand
  have hOnly := Projections.applyEvents_onlyFrees
    (fun envelope hMem => hFrees.free _ (mem_map_of_mem hMem)) hApplied
  have hNotIn : ¬EndsIn (persisted.map payload) other :=
    fun hIn => hOther (h.ends_of_endsIn hApplied hEnded hIn)
  refine ⟨fun claim hClaim hTask => ?_, fun lease hLease hTask => ?_⟩
  · have hFree : ¬EndsIn (persisted.map payload) claim.taskId := hTask ▸ hNotIn
    exact hOnly.claimsKept claim ((hFrees.claims claim).mpr ⟨hClaim, hFree⟩) hFree
  · have hFree : ¬EndsIn (persisted.map payload) lease.taskId := hTask ▸ hNotIn
    exact hOnly.leasesKept lease (hFrees.leases.symm ▸ hLease) hFree

include h in
theorem Accepted.canEnd
    (hApplied : applyEvents (env.part 4) persisted appended = (.ok (), applied)) {id : TaskId}
    (hEnded : EndsTask db applied id) : command.CanEnd := by
  cases hAbout : command.isAboutTasks with
  | true => exact .inl hAbout
  | false =>
    cases hTakesIn : command.takesIn with
    | true => exact .inr hTakesIn
    | false =>
      refine absurd hEnded (not_endsTask_of_same ?_)
      rw [h.lifecycles hApplied id, (h.spares hTakesIn hAbout id).after]

end Handler

namespace Server

open Handler (handled)

variable {config : Config}

/-- The end of a task frees what is held on it, and nothing else. -/
def FreesEnded (config : Config) (db : Database) : Call → Prop
  | .command env caller command actor => ∀ answer after,
      Handler.handleWithRunOwner config env caller command actor db = (.ok answer, after) →
      ∀ ended, EndsTask db after ended →
        Unheld after ended ∧ ∀ other, ¬EndsTask db after other → KeepsHolds db after other
  | _ => True

def LeavesNothingHeld (db : Database) : Call → Prop
  | .command env _ command _ => Handler.LeavesUnheld db env command
  | _ => True

theorem freesEnded_of_leavesNothingHeld {db : Database} {call : Call} (h : LeavesNothingHeld db call) :
    FreesEnded config db call := by
  cases call with
  | command env caller command actor =>
    intro answer after hRun ended hEnded
    cases handled hRun with
    | unlogged _ _ hAudited =>
      obtain ⟨_, _, _, _, _, _, rfl⟩ := hAudited
      exact absurd hEnded (not_endsTask_of_same rfl)
    | projected hAccepted hApplied _ =>
      rename_i persisted _ applied _
      have hSame : SameLifecycles applied
          (AutoAppend.autoAppendLogs config (env.part 5) applied persisted) :=
        AutoAppend.autoAppendLogs_lifecycles _ _
      have hHolding : AutoAppend.Holding applied
          (AutoAppend.autoAppendLogs config (env.part 5) applied persisted) :=
        AutoAppend.autoAppendLogs_holding _ _
      rw [endsTask_congr hSame] at hEnded
      have hCommand := hAccepted.canEnd hApplied hEnded
      refine ⟨hHolding.unheld (hAccepted.unheld hCommand h hApplied hEnded), fun other hOther => ?_⟩
      rw [endsTask_congr hSame] at hOther
      exact hHolding.keepsHolds (hAccepted.keepsHolds hCommand hApplied hEnded hOther)
  | _ => exact trivial

/-- In every run, from any state, whose commands leave nothing held on a task that
they end without a transition, each end of a task frees what is held on it. -/
theorem ends_free_tasks {start : Database} {calls : List Call}
    (hMeets : Meets config LeavesNothingHeld start calls) : Meets config (FreesEnded config) start calls :=
  Meets.imp (fun _ _ => freesEnded_of_leavesNothingHeld) hMeets

private def completedClaimRun : List Call := commands [
  .task (.createTask { NewTask.new "task" with id := some ⟨7⟩ }),
  .claim (.acquireClaim ⟨3⟩ ⟨7⟩ ⟨5⟩ 1000000000),
  .task (.completeTask ⟨7⟩ none)]

theorem ends_free_tasks_completed : Meets engineConfig (FreesEnded engineConfig) Database.empty completedClaimRun := by
  refine ends_free_tasks ⟨⟨fun id status before hTerminal hDirect _ _ => ?_, nofun⟩,
    ⟨fun id status before _ hDirect _ _ => ?_, nofun⟩, ⟨fun id status before _ hDirect _ _ => ?_, nofun⟩, trivial⟩
  · rcases hDirect with hPatches | ⟨intake, hIntake, _, _, rfl⟩
    · exact absurd hPatches not_false
    · rw [mem_singleton.mp hIntake] at hTerminal
      cases hTerminal
  · rcases hDirect with hPatches | ⟨intake, hIntake, _⟩
    · exact absurd hPatches not_false
    · exact absurd hIntake not_mem_nil
  · rcases hDirect with hPatches | ⟨intake, hIntake, _⟩
    · exact absurd hPatches not_false
    · exact absurd hIntake not_mem_nil

private def patchedClaimRun : List Call := commands [
  .task (.createTask { NewTask.new "task" with id := some ⟨7⟩ }),
  .claim (.acquireClaim ⟨3⟩ ⟨7⟩ ⟨5⟩ 1000000000),
  .task (.updateTask ⟨7⟩ { TaskPatch.none with status := some .done })]

theorem patched_task_stays_claimed :
    ¬Meets engineConfig (FreesEnded engineConfig) Database.empty patchedClaimRun := by
  rintro ⟨_, _, hFrees, _⟩
  have hClaimed : ∃ claim ∈ (run engineConfig patchedClaimRun).agentClaims.rows, claim.taskId = ⟨7⟩ := by
    decide +kernel
  have hBefore : (run engineConfig (patchedClaimRun.take 2)).statusOf ⟨7⟩ = some .inbox := by decide +kernel
  have hAfter : (run engineConfig patchedClaimRun).statusOf ⟨7⟩ = some .done := by decide +kernel
  have hAnswered : (Handler.handleWithRunOwner engineConfig (nthEnv 2) .internal
      (.task (.updateTask ⟨7⟩ { TaskPatch.none with status := some .done })) .anyUser
      (run engineConfig (patchedClaimRun.take 2))).1.toBool = true := by decide +kernel
  cases hRun : Handler.handleWithRunOwner engineConfig (nthEnv 2) .internal
      (.task (.updateTask ⟨7⟩ { TaskPatch.none with status := some .done })) .anyUser
      (run engineConfig (patchedClaimRun.take 2)) with
  | mk outcome after =>
  rw [hRun] at hAnswered
  have hLast : after = run engineConfig patchedClaimRun := (congrArg Prod.snd hRun).symm
  cases outcome with
  | error e => cases hAnswered
  | ok answer =>
    obtain ⟨claim, hClaim, hTask⟩ := hClaimed
    have hUnheld := (hFrees answer after hRun ⟨7⟩
      ⟨.inbox, hBefore, .inr ⟨rfl, .done, hLast ▸ hAfter, rfl⟩⟩).1
    exact hUnheld.1 claim (hLast ▸ KeyedTable.mem_rows.mp hClaim) hTask

end Server
end Daruma
