import Daruma.Core.CallFrames
import Daruma.Core.CommandEffects

/-! What a call of the server makes of the lifecycle of each task. The batch of a
command that takes nothing in is always projected to its end. -/
namespace Daruma

open Outcome List
open Projections (KeepsKeys applyEvents applyEvents_lifecycles applyEvents_keepKeys)

theorem lifecycle_of_isAudit {event : Event} (h : event.isAudit = true) (id : TaskId) (row : Option Lifecycle) :
    event.lifecycle id row = row := by
  cases event with
  | audit event => rfl
  | _ => cases h

section

variable {db : Database} {env : Env} {command : Command} {event : Event}

theorem Sanctioned.namesCreated (h : Sanctioned db env command event) : event.NamesCreated := by
  have hNamed : ∀ new, command.Creates db env new → new.id.isSome = true := by
    rintro new ⟨intake, _, _, hAs⟩
    rw [hAs.id]
    rfl
  cases event with
  | task event =>
    intro new hNew
    cases event with
    | taskCreated created =>
      cases mem_singleton.mp hNew
      exact hNamed new h
    | taskSplitGenerated parent subtasks => exact hNamed new (h new hNew)
    | _ => exact absurd hNew not_mem_nil
  | _ => exact trivial

theorem Sanctioned.steady (h : Sanctioned db env command event) (hPlain : command.IsPlain) : event.Steady := by
  have hCreates : ∀ new, ¬command.Creates db env new := by
    rintro new ⟨intake, hIntake, _⟩
    rw [Command.intakes_eq_nil hPlain.1] at hIntake
    exact absurd hIntake not_mem_nil
  have hQuiet : command.isQuiet ≠ true := by
    rw [hPlain.2]
    exact Bool.false_ne_true
  cases event with
  | task event =>
    cases event with
    | taskCreated new => exact absurd h (hCreates new)
    | taskSplitGenerated parent subtasks =>
      cases subtasks with
      | nil => rfl
      | cons new rest => exact absurd (h new mem_cons_self) (hCreates new)
    | _ => rfl
  | run event =>
    cases event with
    | runNoteAppended => exact absurd h.symm hQuiet
    | _ => exact trivial
  | claim | handoff | rule | artifact => exact absurd h hQuiet
  | _ => exact trivial

theorem Sanctioned.brings (h : Sanctioned db env command event) (hNotPlain : ¬command.IsPlain) (id : TaskId)
    (row : Option Lifecycle) :
    event.lifecycle id row = row ∨ ∃ intake ∈ command.intakes env, intake.isNew db = true ∧ intake.id = id ∧
      event.lifecycle id row = some (intake.status, false) := by
  have hCreated : ∀ new row, command.Creates db env new →
      new.lifecycle id row = row ∨ ∃ intake ∈ command.intakes env, intake.isNew db = true ∧ intake.id = id ∧
        new.lifecycle id row = some (intake.status, false) := by
    rintro new row ⟨intake, hIntake, hNew, hAs⟩
    unfold NewTask.lifecycle
    by_cases hSame : new.id = some id
    · rw [if_pos hSame, hAs.status]
      exact .inr ⟨intake, hIntake, hNew, Option.some.inj (hAs.id.symm.trans hSame), rfl⟩
    · exact .inl (if_neg hSame)
  cases event with
  | task event =>
    cases event with
    | taskCreated new => exact hCreated new row h
    | taskSplitGenerated parent subtasks =>
      change ∀ new ∈ subtasks, command.Creates db env new at h
      change subtasks.foldl (fun row new => new.lifecycle id row) row = row ∨ ∃ intake ∈ _, _ ∧ _ ∧
        subtasks.foldl (fun row new => new.lifecycle id row) row = _
      induction subtasks generalizing row with
      | nil => exact .inl rfl
      | cons new rest ih =>
        obtain ⟨hNew, hRest⟩ := forall_mem_cons.mp h
        rw [foldl_cons]
        rcases ih (new.lifecycle id row) hRest with hKept | hBrought
        · rw [hKept]
          exact hCreated new row hNew
        · exact .inr hBrought
    | taskUpdated taskId patch =>
      have hNone : patch.status = none := h.elim And.left fun hPatched => absurd hPatched.1 hNotPlain
      change (if taskId = id then row.map fun row => (patch.status.getD row.1, row.2) else row) = row ∨ _
      rw [hNone]
      refine .inl ?_
      split
      · cases row <;> rfl
      · rfl
    | taskStatusChanged | taskReopened | taskClosed | taskDeleted => exact absurd h hNotPlain
    | taskCompleted =>
      obtain ⟨completionNote, rfl⟩ := h
      exact absurd ⟨rfl, rfl⟩ hNotPlain
    | _ => exact .inl rfl
  | _ => exact .inl rfl

end

namespace Handler

variable {config : Config} {db : Database} {env : Env} {caller : Caller} {claimed : Actor} {command : Command}
  {batch : List Event} {relations : Relations} {trail : GateStage.Trail} {persisted : List EventEnvelope}
  {appended : Database}

variable (h : Accepted config env caller command claimed db batch relations trail persisted appended)

include h in
theorem Accepted.payload_cases {envelope : EventEnvelope} (hMem : envelope ∈ persisted) :
    (∃ f event, Relinking f ∧ event ∈ batch ∧ envelope.payload = f event) ∨
      envelope.payload.isAudit = true ∨ IsRelease envelope.payload := by
  obtain ⟨f, audit, metrics, releases, hRelinking, hAudit, hMetrics, hReleases, hPayloads⟩ := h.payloads
  have hIn : envelope.payload ∈ audit ++ batch.map f ++ metrics ++ releases :=
    hPayloads ▸ mem_map_of_mem hMem
  simp only [mem_append, mem_map] at hIn
  rcases hIn with ((hIn | ⟨event, hEvent, hSame⟩) | hIn) | hIn
  · exact .inr (.inl (hAudit _ hIn))
  · exact .inl ⟨f, event, hRelinking, hEvent, hSame.symm⟩
  · exact .inr (.inl (hMetrics _ hIn))
  · exact .inr (.inr (hReleases _ hIn))

include h in
/-- What holds of the events of a batch, of audits and of released claims holds of
all that is persisted. -/
theorem Accepted.payload_rule {P : Event → Prop}
    (hBatch : ∀ {f event}, Relinking f → event ∈ batch → P (f event)) (hAudit : ∀ event, P (.audit event))
    (hRelease : ∀ agentId taskId claimId, P (.claim (.agentReleased agentId taskId (some claimId)))) :
    ∀ event ∈ persisted.map EventEnvelope.payload, P event := by
  refine forall_mem_map.mpr fun envelope hMem => ?_
  rcases h.payload_cases hMem with ⟨f, event, hRelinking, hEvent, hSame⟩ | hIs | ⟨agentId, taskId, claimId, hIs⟩
  · exact hSame ▸ hBatch hRelinking hEvent
  · generalize envelope.payload = event at hIs
    cases event with
    | audit event => exact hAudit event
    | _ => cases hIs
  · exact hIs ▸ hRelease agentId taskId claimId

include h in
/-- Only a created task is persisted otherwise than the batch has it, and only
audits and released claims come beside it. -/
theorem Accepted.mem_batch {event : Event} (hMem : event ∈ persisted.map EventEnvelope.payload)
    (hBuilt : event.isBuilt = true) : event ∈ batch := by
  refine h.payload_rule (P := fun event => event.isBuilt = true → event ∈ batch)
    (fun {f event} hRelinking hEvent hBuilt => ?_) (fun _ => nofun) (fun _ _ _ => nofun) event hMem hBuilt
  rcases hRelinking with rfl | ⟨origin, rfl⟩
  · exact hEvent
  · unfold relinkEvent at hBuilt ⊢
    split at hBuilt
    · cases hBuilt
    · exact hEvent

variable {f : Event → Event}

theorem relinking_lifecycle (hRelinking : Relinking f) (event : Event) (id : TaskId)
    (row : Option Lifecycle) : (f event).lifecycle id row = event.lifecycle id row :=
  hRelinking.reads (·.lifecycle id row) (fun _ _ => rfl) event

theorem relinking_namesCreated (hRelinking : Relinking f) {event : Event}
    (h : event.NamesCreated) : (f event).NamesCreated := by
  rcases hRelinking with rfl | ⟨origin, rfl⟩
  · exact h
  · unfold relinkEvent
    split
    · rename_i task
      intro new hNew
      cases mem_singleton.mp hNew
      exact h task (mem_singleton_self task)
    · exact h

include h in
theorem Accepted.namesCreated : ∀ envelope ∈ persisted, envelope.payload.NamesCreated :=
  forall_mem_map.mp (h.payload_rule
    (fun hRelinking hEvent => relinking_namesCreated hRelinking (h.sanctioned _ hEvent).namesCreated)
    (fun _ => trivial) fun _ _ _ => trivial)

include h in
theorem Accepted.steady (hPlain : command.IsPlain) : ∀ envelope ∈ persisted, envelope.payload.Steady := by
  refine forall_mem_map.mp (h.payload_rule (fun hRelinking hEvent => ?_) (fun _ => trivial) fun _ _ _ => trivial)
  have hSteady := (h.sanctioned _ hEvent).steady hPlain
  rcases hRelinking with rfl | ⟨origin, rfl⟩
  · exact hSteady
  · unfold relinkEvent
    split
    · exact absurd hSteady (cons_ne_nil _ _)
    · exact hSteady

include h in
theorem Accepted.tasks_eq : appended.tasks = db.tasks := by
  obtain ⟨_, _, _, _, _, rfl⟩ := h.frame
  rfl

theorem Accepted.projected {outcome : Except CoreError Unit} {applied : Database}
    (h : Accepted config env caller command claimed db batch relations trail persisted appended)
    (hPlain : command.IsPlain) (hKeys : TaskRepo.KeysDistinct db.tasks)
    (hApplied : applyEvents (env.part 4) persisted appended = (outcome, applied)) :
    outcome = .ok () ∧ ∀ id, applied.lifecycleOf id =
      lifecycleAfter (persisted.map EventEnvelope.payload) id (db.lifecycleOf id) := by
  have hTotal : ∃ last, applyEvents (env.part 4) persisted appended = (.ok (), last) :=
    Projections.applyEvents_ok (h.steady hPlain) (h.tasks_eq ▸ hKeys)
  obtain ⟨last, hTotal⟩ := hTotal
  obtain ⟨rfl, rfl⟩ := Prod.mk.inj (hApplied.symm.trans hTotal)
  obtain ⟨first, left, hSplit, hAll, hEffect⟩ := applyEvents_lifecycles hTotal h.namesCreated
  refine ⟨rfl, fun id => ?_⟩
  rw [hEffect id, hSplit, hAll rfl, append_nil, Database.lifecycleOf, h.tasks_eq, ← Database.lifecycleOf]

/-- What a command that takes tasks in, or stores nothing, makes of a task,
however far its batch gets. -/
theorem Accepted.brings {outcome : Except CoreError Unit} {applied : Database}
    (h : Accepted config env caller command claimed db batch relations trail persisted appended)
    (hNotPlain : ¬command.IsPlain)
    (hApplied : applyEvents (env.part 4) persisted appended = (outcome, applied)) (id : TaskId) :
    applied.lifecycleOf id = db.lifecycleOf id ∨
      ∃ intake ∈ command.intakes (builderEnv env), intake.isNew db = true ∧ intake.id = id ∧
        applied.lifecycleOf id = some (intake.status, false) := by
  obtain ⟨first, left, hSplit, _, hEffect⟩ := applyEvents_lifecycles hApplied h.namesCreated
  have hEach : ∀ event ∈ first, ∀ row, event.lifecycle id row = row ∨
      ∃ intake ∈ command.intakes (builderEnv env), intake.isNew db = true ∧ intake.id = id ∧
        event.lifecycle id row = some (intake.status, false) := by
    refine fun event hMem => h.payload_rule (P := fun event => ∀ row, event.lifecycle id row = row ∨
        ∃ intake ∈ command.intakes (builderEnv env), intake.isNew db = true ∧ intake.id = id ∧
          event.lifecycle id row = some (intake.status, false)) (fun hRelinking hEvent row => ?_)
      (fun _ _ => .inl rfl) (fun _ _ _ _ => .inl rfl) event (hSplit ▸ mem_append_left left hMem)
    rw [relinking_lifecycle hRelinking]
    exact (h.sanctioned _ hEvent).brings hNotPlain id row
  have hStart : appended.lifecycleOf id = db.lifecycleOf id := by
    rw [Database.lifecycleOf, h.tasks_eq, ← Database.lifecycleOf]
  rw [hEffect id, hStart]
  clear hEffect hSplit
  generalize db.lifecycleOf id = row
  induction first generalizing row with
  | nil => exact .inl rfl
  | cons event rest ih =>
    obtain ⟨hFirst, hRest⟩ := forall_mem_cons.mp hEach
    rw [lifecycleAfter_cons]
    rcases ih hRest (event.lifecycle id row) with hKept | hBrought
    · rw [hKept]
      exact hFirst row
    · exact .inr hBrought

end Handler

namespace AutoAppend

open Projections (SameLifecycles)

variable {config : Config} {env : Env} {db : Database} {actor : Actor} {event : Event}

theorem autoAppendLogs_lifecycles (db : Database) (envelopes : List EventEnvelope) :
    SameLifecycles db (autoAppendLogs config env db envelopes) := by
  obtain ⟨_, _, _, _, _, _, hLines, _⟩ := autoAppendLogs_lines envelopes db
  rw [hLines]
  exact fun _ => rfl

end AutoAppend

namespace Handler

variable {config : Config} {db db' : Database} {env : Env} {caller : Caller} {claimed : Actor}
  {command : Command} {outcome : Except CoreError DispatchOutcome}

inductive LifecycleStep (command : Command) (env : Env) (db db' : Database) (id : TaskId) : Prop where
  | kept (h : db'.lifecycleOf id = db.lifecycleOf id)
  | moved (task : Task) (toStatus : Status) (closed : Bool) (hFound : db.tasks.find? id = some task)
      (hDiffers : task.status ≠ toStatus) (hAfter : db'.lifecycleOf id = some (toStatus, closed))
      (hSettled : task.lifecycle.Settled → Lifecycle.Settled (toStatus, closed))
  | deleted (hCommand : command = .task (.deleteTask id)) (hAfter : db'.lifecycleOf id = none)
  | patched (status : Status) (hCommand : command.patchesStatus id (some status))
      (hAfter : db'.lifecycleOf id = (db.lifecycleOf id).map fun row => (status, row.2))
  | brought (intake : Intake) (hIntake : intake ∈ command.intakes (builderEnv env))
      (hNew : intake.isNew db = true) (hId : intake.id = id)
      (hAfter : db'.lifecycleOf id = some (intake.status, false))

variable {id : TaskId}

theorem LifecycleStep.of_effect {events : List Event} (h : Effect command db events id)
    (hAfter : db'.lifecycleOf id = lifecycleAfter events id (db.lifecycleOf id)) :
    LifecycleStep command env db db' id := by
  cases h with
  | spared h => exact .kept (hAfter.trans (h.after _))
  | moved task toStatus h =>
    have hBefore : db.lifecycleOf id = some (task.status, task.completedAt.isSome) := by
      rw [Database.lifecycleOf, TaskRepo.lifecycleOf, h.found]
      rfl
    obtain ⟨closed, hEffect, hSettled⟩ := h.effect task.completedAt.isSome
    rw [hBefore, hEffect] at hAfter
    exact .moved task toStatus closed h.found h.differs hAfter hSettled
  | deleted _ _ hCommand hRow _ _ => exact .deleted hCommand (hAfter.trans (hRow _))
  | patched status hCommand hRow _ => exact .patched status hCommand (hAfter.trans (hRow _))

theorem Accepted.lifecycleStep {batch : List Event} {relations : Relations} {trail : GateStage.Trail}
    {persisted : List EventEnvelope} {appended applied : Database} {projection : Except CoreError Unit}
    (h : Accepted config env caller command claimed db batch relations trail persisted appended)
    (hKeys : TaskRepo.KeysDistinct db.tasks)
    (hApplied : applyEvents (env.part 4) persisted appended = (projection, applied)) (id : TaskId) :
    LifecycleStep command env db applied id := by
  by_cases hPlain : command.IsPlain
  · exact .of_effect (h.effect hPlain.1 id) ((h.projected hPlain hKeys hApplied).2 id)
  · rcases h.brings hPlain hApplied id with hKept | ⟨intake, hIntake, hNew, hId, hAfter⟩
    · exact .kept hKept
    · exact .brought intake hIntake hNew hId hAfter

theorem LifecycleStep.congr {last : Database} (h : LifecycleStep command env db db' id)
    (hSame : last.lifecycleOf id = db'.lifecycleOf id) : LifecycleStep command env db last id := by
  cases h with
  | kept h => exact .kept (hSame.trans h)
  | moved task toStatus closed hFound hDiffers hAfter hSettled =>
    exact .moved task toStatus closed hFound hDiffers (hSame.trans hAfter) hSettled
  | deleted hCommand hAfter => exact .deleted hCommand (hSame.trans hAfter)
  | patched status hCommand hAfter => exact .patched status hCommand (hSame.trans hAfter)
  | brought intake hIntake hNew hId hAfter => exact .brought intake hIntake hNew hId (hSame.trans hAfter)

theorem handle_lifecycleStep (hKeys : TaskRepo.KeysDistinct db.tasks)
    (h : handleWithRunOwner config env caller command claimed db = (outcome, db')) (id : TaskId) :
    LifecycleStep command env db db' id := by
  cases handled h with
  | unlogged _ _ hAudited =>
    obtain ⟨_, _, _, _, _, _, rfl⟩ := hAudited
    exact .kept rfl
  | stranded hAccepted hApplied => exact hAccepted.lifecycleStep hKeys hApplied id
  | projected hAccepted hApplied _ =>
    exact (hAccepted.lifecycleStep hKeys hApplied id).congr (AutoAppend.autoAppendLogs_lifecycles _ _ id)

theorem handle_keepKeys (h : handleWithRunOwner config env caller command claimed db = (outcome, db')) :
    KeepsKeys db db' := by
  intro hKeys
  cases handled h with
  | unlogged _ _ hAudited =>
    obtain ⟨_, _, _, _, _, _, rfl⟩ := hAudited
    exact hKeys
  | stranded hAccepted hApplied =>
    exact applyEvents_keepKeys hApplied (hAccepted.tasks_eq ▸ hKeys)
  | projected hAccepted hApplied _ =>
    obtain ⟨_, _, _, _, _, _, hLines, _⟩ := AutoAppend.autoAppendLogs_lines _ _
    have hKept := applyEvents_keepKeys hApplied
    rw [hLines]
    exact hKept (hAccepted.tasks_eq ▸ hKeys)

end Handler

namespace Server

open Projections (SameLifecycles KeepsKeys)

variable {config : Config}

theorem serve_lifecycles {call : Call} (hCall : Call.isCommand call = false) (db : Database) :
    SameLifecycles db (serve config db call) := by
  refine serve_rule hCall fun ⟨_, _, _, _, _, _, hFrame, _⟩ => ?_
  rw [hFrame]
  exact fun _ => rfl

theorem serve_keepKeys (db : Database) (call : Call) : KeepsKeys db (serve config db call) := by
  cases call with
  | command env caller command actor => exact Handler.handle_keepKeys rfl
  | _ =>
    refine serve_rule rfl fun ⟨_, _, _, _, _, _, hFrame, _⟩ => ?_
    rw [hFrame]
    exact fun hKeys => hKeys

/-- In every reachable state one task at most has a given external key. -/
theorem run_keysDistinct (calls : List Call) : TaskRepo.KeysDistinct (run config calls).tasks :=
  run_induction .empty (fun db call hKeys _ => serve_keepKeys db call hKeys) (Meets.of_forall fun _ _ => trivial)

end Server
end Daruma
