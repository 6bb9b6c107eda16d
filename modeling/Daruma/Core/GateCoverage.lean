import Daruma.Core.AcceptedBatches
import Daruma.Core.Runs
import Daruma.Core.StatusWrites

/-! Which changes of status the gate gets to see. -/
namespace Daruma

open List

/-- The statuses that the rules on tasks guard. -/
def Status.isGated : Status → Bool
  | .inProgress | .done => true
  | _ => false

structure GateCheck.Matches (check : GateCheck) (id : TaskId) (status : Status) : Prop where
  taskId : check.taskId = some id
  statusTo : check.statusTo = some status
  trigger : check.trigger = if status = .inProgress then .taskBeforeStart else .taskBeforeComplete

def Command.WritesDirectly (command : Command) (db : Database) (env : Env) (id : TaskId) (status : Status) :
    Prop :=
  command.patchesStatus id (some status) ∨
    ∃ intake ∈ command.intakes env, intake.isNew db = true ∧ intake.id = id ∧ intake.status = status

namespace LifecycleGate

theorem exists_check {events : List Event} {id : TaskId} {fromStatus toStatus : Status}
    (hMem : .task (.taskStatusChanged id fromStatus toStatus) ∈ events) (hGated : toStatus.isGated = true) :
    ∃ check ∈ deriveGateChecks events, check.Matches id toStatus := by
  have hMoves : toStatus = .inProgress ∨ toStatus = .done := by
    cases toStatus <;> first | exact .inl rfl | exact .inr rfl | cases hGated
  refine ⟨_, mem_deriveGateChecks.mpr ⟨_, hMem, _, if_pos hMoves, rfl⟩, rfl, rfl, ?_⟩
  rfl

end LifecycleGate

namespace TaskCommands

variable {id : TaskId}

theorem completeTask_moves {db : Database} {env : Env} {actor : Actor} {completionNote : Option CompletionNote} :
    Stateful.Yields (completeTask db env actor id completionNote) fun events =>
      ∃ fromStatus, .task (.taskStatusChanged id fromStatus .done) ∈ events :=
  .andThen fun task => .andThen fun _ => .andThen fun _ => .andThen fun _ => .andThen fun _ =>
    .andThen fun _ => .pure ⟨task.status, mem_append_left _ (mem_append_left _ mem_cons_self)⟩

theorem updateTask_one {config : Config} {db : Database} {patch : TaskPatch} :
    Outcome.Yields (updateTask config db id patch) fun events =>
      ∃ normal, events = [.task (.taskUpdated id normal)] :=
  .andThen fun _ _ => .andThen fun _ _ => .andThen fun normal _ => .andThen fun _ _ => .andThen
    fun _ _ => .andThen fun _ _ => .pure ⟨normal, rfl⟩

end TaskCommands

namespace Handler

open Server

variable {config : Config} {db : Database}

variable {env : Env} {caller : Caller} {command : Command} {claimed : Actor} {batch : List Event}
  {relations : Relations} {trail : GateStage.Trail} {persisted : List EventEnvelope} {appended : Database}
  {event : Event} {id : TaskId} {status : Status}

theorem Accepted.moves (h : Accepted config env caller command claimed db batch relations trail persisted appended)
    (hMem : event ∈ batch) (hWrites : event.WritesStatus id status) :
    command.WritesDirectly db (builderEnv env) id status ∨
      ∃ fromStatus, .task (.taskStatusChanged id fromStatus status) ∈ batch := by
  have hSanctioned := h.sanctioned event hMem
  have hCreated : ∀ new, command.Creates db (builderEnv env) new → (new.id = none ∨ new.id = some id) →
      new.status.getD .inbox = status → command.WritesDirectly db (builderEnv env) id status := by
    rintro new ⟨intake, hIntake, hNew, hAs⟩ hId hStatus
    have hSame : intake.id = id := by
      rcases hId with hId | hId <;> rw [hAs.id] at hId
      · cases hId
      · exact Option.some.inj hId
    exact .inr ⟨intake, hIntake, hNew, hSame, hAs.status.symm.trans hStatus⟩
  cases event with
  | task event =>
    cases event with
    | taskCreated new =>
      rcases hWrites with hSets | ⟨other, hOther, hId, hStatus⟩
      · exact absurd hSets not_false
      · cases mem_singleton.mp hOther
        exact .inl (hCreated new hSanctioned hId hStatus)
    | taskSplitGenerated parent subtasks =>
      rcases hWrites with hSets | ⟨new, hNew, hId, hStatus⟩
      · exact absurd hSets not_false
      · exact .inl (hCreated new (hSanctioned new hNew) hId hStatus)
    | taskUpdated taskId patch =>
      obtain ⟨rfl, hPatch⟩ := hWrites.resolve_right fun ⟨_, hNone, _⟩ => absurd hNone not_mem_nil
      rcases hSanctioned with ⟨hNone, _⟩ | ⟨_, hNone | hPatches⟩
      · cases hNone.symm.trans hPatch
      · cases hNone.symm.trans hPatch
      · exact .inl (.inl (hPatch ▸ hPatches))
    | taskStatusChanged taskId fromStatus toStatus =>
      obtain ⟨rfl, rfl⟩ := hWrites.resolve_right fun ⟨_, hNone, _⟩ => absurd hNone not_mem_nil
      exact .inr ⟨fromStatus, hMem⟩
    | taskCompleted taskId completedAt completionNote =>
      obtain ⟨rfl, rfl⟩ := hWrites.resolve_right fun ⟨_, hNone, _⟩ => absurd hNone not_mem_nil
      obtain ⟨givenNote, rfl⟩ := hSanctioned
      obtain ⟨built, hBuilt, hIn⟩ := h.mem_of_task
      obtain ⟨fromStatus, hMoves⟩ := TaskCommands.completeTask_moves _ _ _ hBuilt
      exact .inr ⟨fromStatus, hIn _ hMoves⟩
    | _ => exact absurd hWrites (by rintro (hSets | ⟨_, hNone, _⟩); exacts [hSets, absurd hNone not_mem_nil])
  | _ => exact absurd hWrites not_false

theorem Accepted.checked (h : Accepted config env caller command claimed db batch relations trail persisted appended)
    (hMem : event ∈ batch) (hWrites : event.WritesStatus id status) (hGated : status.isGated = true) :
    command.WritesDirectly db (builderEnv env) id status ∨
      ∃ check ∈ LifecycleGate.deriveGateChecks batch, check.Matches id status :=
  (h.moves hMem hWrites).imp_right fun ⟨_, hMoved⟩ => LifecycleGate.exists_check hMoved hGated

/-- Every status that the rules guard and that a command brings about has a check
in the batch that brings it about. -/
def Covered (config : Config) (db : Database) : Call → Prop
  | .command env caller command claimed => ∀ id (status : Status), status.isGated = true →
      (serve config db (.command env caller command claimed)).statusOf id = some status →
      db.statusOf id ≠ some status →
      ∃ batch relations trail persisted appended,
        Accepted config env caller command claimed db batch relations trail persisted appended ∧
          ∃ check ∈ LifecycleGate.deriveGateChecks batch, check.Matches id status
  | _ => True

def WritesNoNewGatedStatus (db : Database) : Call → Prop
  | .command env _ command _ => ∀ id (status : Status), status.isGated = true →
      command.WritesDirectly db (builderEnv env) id status → db.statusOf id = some status
  | _ => True

theorem covered_of_writesNoNewGatedStatus {call : Call} (h : WritesNoNewGatedStatus db call) :
    Covered config db call := by
  cases call with
  | command env caller command claimed =>
    intro id status hGated hAfter hBefore
    have hHandle : handleWithRunOwner config env caller command claimed db =
        (_, serve config db (.command env caller command claimed)) := rfl
    obtain ⟨batch, relations, trail, persisted, appended, hAccepted, _, event, hMem, hWrites⟩ :=
      status_of_handle hHandle hAfter hBefore
    refine ⟨batch, relations, trail, persisted, appended, hAccepted, ?_⟩
    exact (hAccepted.checked hMem hWrites hGated).resolve_left fun hDirect =>
      hBefore (h id status hGated hDirect)
  | _ => exact trivial

/-- In a run whose commands write no guarded status directly that the task does
not have, the gate gets to see every start and every completion. -/
theorem gate_covers_run {calls : List Call} (hMeets : Meets config WritesNoNewGatedStatus Database.empty calls) :
    Meets config (Covered config) Database.empty calls :=
  Meets.imp (fun _ _ => covered_of_writesNoNewGatedStatus) hMeets

def completingRun : List Call := commands [
  .task (.createTask { NewTask.new "task" with id := some ⟨7⟩ }),
  .task (.completeTask ⟨7⟩ none)]

theorem gate_covers_completing_run : Meets engineConfig (Covered engineConfig) Database.empty completingRun := by
  refine gate_covers_run ⟨?_, ?_, trivial⟩
  · rintro id status hGated (hPatches | ⟨intake, hMem, _, _, hStatus⟩)
    · exact absurd hPatches not_false
    · cases mem_singleton.mp hMem
      subst hStatus
      cases hGated
  · rintro id status hGated (hPatches | ⟨intake, hMem, _⟩)
    · exact absurd hPatches not_false
    · exact absurd hMem not_mem_nil

def inboxRun : List Call := commands [.task (.createTask { NewTask.new "task" with id := some ⟨7⟩ })]

def patchedStart : Call := .command (nthEnv 1) .internal
  (.task (.updateTask ⟨7⟩ { TaskPatch.none with status := some .inProgress })) .anyUser

/-- A patch starts the task without a check. -/
theorem patched_start_uncovered : ¬Covered engineConfig (run engineConfig inboxRun) patchedStart := by
  have hBefore : (run engineConfig inboxRun).statusOf ⟨7⟩ = some .inbox := by decide +kernel
  have hAfter : (serve engineConfig (run engineConfig inboxRun) patchedStart).statusOf ⟨7⟩ =
      some .inProgress := by decide +kernel
  intro hCovered
  obtain ⟨batch, relations, trail, persisted, appended, hAccepted, check, hCheck, _⟩ :=
    hCovered ⟨7⟩ .inProgress rfl hAfter (by rw [hBefore]; exact nofun)
  obtain ⟨built, hBuilt, rfl⟩ := hAccepted.of_task
  obtain ⟨hUpdate, _⟩ := Stateful.lift_eq.mp hBuilt
  obtain ⟨normal, rfl⟩ := TaskCommands.updateTask_one _ hUpdate
  rw [map_singleton, Reconciliation.planReconciliations, Reconciliation.drain_nil rfl] at hCheck
  exact absurd hCheck not_mem_nil

end Handler
end Daruma
