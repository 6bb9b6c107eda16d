import Daruma.Core.StatusWrites
import Daruma.Storage.KeyIndex

/-! The lifecycle of a task: its status, and whether it has the instant of its closing. Each event
of the log is a function on it, and so is a projected batch. -/
namespace Daruma

/-- The status of a task and whether its closing is on record. -/
abbrev Lifecycle := Status × Bool

/-- A task is on record as closed exactly while its status is terminal. -/
def Lifecycle.Settled (lifecycle : Lifecycle) : Prop := lifecycle.2 = lifecycle.1.isTerminal

def Task.lifecycle (task : Task) : Lifecycle := (task.status, task.completedAt.isSome)

def NewTask.lifecycle (new : NewTask) (id : TaskId) (before : Option Lifecycle) : Option Lifecycle :=
  if new.id = some id then some (new.status.getD .inbox, false) else before

def TaskEvent.lifecycle (event : TaskEvent) (id : TaskId) (before : Option Lifecycle) : Option Lifecycle :=
  match event with
  | .taskCreated new => new.lifecycle id before
  | .taskSplitGenerated _ subtasks => subtasks.foldl (fun row new => new.lifecycle id row) before
  | .taskUpdated taskId patch =>
    if taskId = id then before.map fun row => (patch.status.getD row.1, row.2) else before
  | .taskStatusChanged taskId _ toStatus => if taskId = id then before.map fun row => (toStatus, row.2) else before
  | .taskCompleted taskId .. => if taskId = id then before.map fun _ => (.done, true) else before
  | .taskDeleted taskId => if taskId = id then none else before
  | .taskReopened taskId .. => if taskId = id then before.map fun row => (row.1, false) else before
  | .taskClosed taskId .. => if taskId = id then before.map fun row => (row.1, true) else before
  | .taskPriorityChanged .. | .taskUnblocked .. | .taskDueElapsed .. | .taskContested .. => before

namespace TaskRepo

def lifecycleOf (tasks : Tasks) (id : TaskId) : Option Lifecycle :=
  (tasks.find? id).map Task.lifecycle

variable {tasks tasks' : Tasks} {env : Env} {envelope : EventEnvelope} {event : TaskEvent} {id : TaskId}

theorem lifecycleOf_upsertTask {task : Task} (h : upsertTask tasks task = .ok tasks') :
    lifecycleOf tasks' id = if task.id = id then some task.lifecycle else lifecycleOf tasks id := by
  rw [lifecycleOf, find?_upsertTask h]
  split
  · rfl
  · rfl

theorem lifecycleOf_updateTask {taskId : TaskId} {f : Task → Task} {g : Lifecycle → Lifecycle}
    (h : updateTask tasks taskId f = .ok tasks') (hId : ∀ old, (f old).id = old.id)
    (hLifecycle : ∀ old, (f old).lifecycle = g old.lifecycle) :
    lifecycleOf tasks' id = if taskId = id then (lifecycleOf tasks id).map g else lifecycleOf tasks id := by
  unfold updateTask at h
  split at h
  · rename_i hNone
    cases h
    split
    · rename_i hSame
      rw [lifecycleOf, ← hSame, hNone]
      rfl
    · rfl
  · rename_i old hOld
    rw [lifecycleOf_upsertTask h, hId, KeyedTable.key_of_find? hOld]
    split
    · rename_i hSame
      rw [lifecycleOf, ← hSame, hOld, Option.map_some, Option.map_some, hLifecycle]
    · rfl

theorem lifecycleOf_insertNew {sourceEventId : Option EventId} {minted : TaskId} {new : NewTask}
    (h : upsertTask tasks (newTaskRow envelope sourceEventId minted new) = .ok tasks')
    (hId : new.id.isSome = true) : lifecycleOf tasks' id = new.lifecycle id (lifecycleOf tasks id) := by
  obtain ⟨given, hGiven⟩ := Option.isSome_iff_exists.mp hId
  have hRowId : (newTaskRow envelope sourceEventId minted new).id = given := by
    rw [newTaskRow, hGiven, Option.getD_some]
  rw [lifecycleOf_upsertTask h, hRowId, NewTask.lifecycle, hGiven]
  by_cases hSame : given = id
  · rw [if_pos hSame, if_pos (congrArg some hSame)]
    rfl
  · rw [if_neg hSame, if_neg fun hOther => hSame (Option.some.inj hOther)]

theorem lifecycleOf_insertSubtasks {subtasks : List NewTask} {n : Nat}
    (h : insertSubtasks env envelope tasks n subtasks = .ok tasks') (hIds : ∀ new ∈ subtasks, new.id.isSome = true) :
    lifecycleOf tasks' id = subtasks.foldl (fun row new => new.lifecycle id row) (lifecycleOf tasks id) := by
  induction subtasks generalizing tasks n with
  | nil =>
    cases h
    rfl
  | cons new rest ih =>
    obtain ⟨hNew, hRest⟩ := List.forall_mem_cons.mp hIds
    unfold insertSubtasks at h
    split at h
    · cases h
    · rename_i middle hFirst
      rw [List.foldl_cons, ← lifecycleOf_insertNew hFirst hNew]
      exact ih h hRest

theorem lifecycleOf_stampPipelinePosition (tasks : Tasks) (taskId id : TaskId) (position : PipelinePosition) :
    lifecycleOf (stampPipelinePosition tasks taskId position) id = lifecycleOf tasks id := by
  rw [lifecycleOf, find?_stampPipelinePosition]
  split
  · rw [Option.map_map]
    rfl
  · rfl

theorem lifecycleOf_applyTaskEvent (h : applyTaskEvent tasks env envelope event = .ok tasks')
    (hIds : ∀ new ∈ event.created, new.id.isSome = true) :
    lifecycleOf tasks' id = event.lifecycle id (lifecycleOf tasks id) := by
  cases event with
  | taskCreated new => exact lifecycleOf_insertNew h (hIds new (List.mem_singleton_self new))
  | taskUpdated taskId patch =>
    unfold applyTaskEvent at h
    dsimp only at h
    split at h
    · cases h
    · rename_i patched hPatched
      have hRow : lifecycleOf patched id =
          (TaskEvent.taskUpdated taskId patch).lifecycle id (lifecycleOf tasks id) :=
        lifecycleOf_updateTask hPatched (fun _ => rfl) fun _ => rfl
      split at h
      · cases h
        exact hRow
      · cases h
        rw [lifecycleOf_stampPipelinePosition, hRow]
  | taskStatusChanged | taskCompleted | taskReopened | taskClosed =>
    exact lifecycleOf_updateTask h (fun _ => rfl) fun _ => rfl
  | taskPriorityChanged taskId fromPriority toPriority =>
    have hRow : lifecycleOf tasks' id = if taskId = id then (lifecycleOf tasks id).map fun row => row
        else lifecycleOf tasks id := lifecycleOf_updateTask h (fun _ => rfl) fun _ => rfl
    simpa [TaskEvent.lifecycle] using hRow
  | taskDeleted taskId =>
    cases h
    rw [lifecycleOf, TaskEvent.lifecycle]
    split
    · rename_i hSame
      rw [hSame, KeyedTable.find?_erase_self]
      rfl
    · rename_i hOther
      rw [KeyedTable.find?_erase_of_ne _ (Ne.symm hOther), lifecycleOf]
  | taskSplitGenerated parent subtasks => exact lifecycleOf_insertSubtasks h hIds
  | taskUnblocked | taskDueElapsed | taskContested =>
    cases h
    rfl

end TaskRepo

open Stateful List

def Event.lifecycle (event : Event) (id : TaskId) (before : Option Lifecycle) : Option Lifecycle :=
  match event with
  | .task event => event.lifecycle id before
  | _ => before

def lifecycleAfter (events : List Event) (id : TaskId) (before : Option Lifecycle) : Option Lifecycle :=
  events.foldl (fun row event => event.lifecycle id row) before

def Database.lifecycleOf (db : Database) (id : TaskId) : Option Lifecycle :=
  TaskRepo.lifecycleOf db.tasks id

theorem Database.statusOf_eq {db : Database} {id : TaskId} : db.statusOf id = (db.lifecycleOf id).map Prod.fst := by
  rw [statusOf, lifecycleOf, TaskRepo.lifecycleOf, Option.map_map]
  rfl

section

variable {first second events : List Event} {event : Event} {id : TaskId} {before : Option Lifecycle}

@[simp] theorem lifecycleAfter_nil : lifecycleAfter [] id before = before := rfl

@[simp] theorem lifecycleAfter_cons :
    lifecycleAfter (event :: events) id before = lifecycleAfter events id (event.lifecycle id before) := rfl

@[simp] theorem lifecycleAfter_append :
    lifecycleAfter (first ++ second) id before = lifecycleAfter second id (lifecycleAfter first id before) :=
  foldl_append

theorem lifecycleAfter_eq_self (h : ∀ event ∈ events, ∀ row, event.lifecycle id row = row) :
    lifecycleAfter events id before = before := by
  induction events with
  | nil => rfl
  | cons event rest ih =>
    obtain ⟨hFirst, hRest⟩ := forall_mem_cons.mp h
    rw [lifecycleAfter_cons, hFirst]
    exact ih hRest

theorem lifecycleAfter_map {f : Event → Event} (h : ∀ event row, (f event).lifecycle id row = event.lifecycle id row) :
    lifecycleAfter (events.map f) id before = lifecycleAfter events id before := by
  induction events generalizing before with
  | nil => rfl
  | cons event rest ih => rw [map_cons, lifecycleAfter_cons, lifecycleAfter_cons, h, ih]

end

def Event.NamesCreated (event : Event) : Prop :=
  match event with
  | .task event => ∀ new ∈ event.created, new.id.isSome = true
  | _ => True

/-- An event that the projections take wherever keys are distinct. -/
def Event.Steady (event : Event) : Prop :=
  match event with
  | .task event => event.created = []
  | .run (.runNoteAppended ..) => False
  | .claim (.agentClaimed ..) | .handoff _ | .rule _ | .artifact _ => False
  | _ => True

namespace Projections

variable {env : Env} {envelope : EventEnvelope} {db db' : Database}

theorem tasks_lifecycles (h : tasks env envelope db = .ok db') (hNames : envelope.payload.NamesCreated)
    (id : TaskId) : db'.lifecycleOf id = envelope.payload.lifecycle id (db.lifecycleOf id) := by
  obtain ⟨written, hWritten, rfl⟩ := tasks_ok h
  unfold TaskRepo.applyEvent at hWritten
  split at hWritten
  · rename_i event hPayload
    rw [hPayload] at hNames ⊢
    exact TaskRepo.lifecycleOf_applyTaskEvent hWritten hNames
  · rename_i hOther
    cases hWritten
    unfold Event.lifecycle
    split
    · rename_i event hPayload
      exact absurd hPayload (hOther event)
    · rfl

def SameLifecycles (before after : Database) : Prop := ∀ id, after.lifecycleOf id = before.lifecycleOf id

theorem SameLifecycles.of_tasks_eq {before after : Database} (h : after.tasks = before.tasks) :
    SameLifecycles before after := by
  intro id
  rw [Database.lifecycleOf, h, Database.lifecycleOf]

theorem plans_lifecycles (db : Database) (env : Env) (envelope : EventEnvelope) :
    SameLifecycles db (PlanRepo.applyEvent db env envelope) := by
  intro id
  refine PlanRepo.applyEvent_tasks_rule (P := fun tasks => TaskRepo.lifecycleOf tasks id = db.lifecycleOf id) rfl fun _ _ _ _ _ _ => ?_
  rw [TaskRepo.lifecycleOf, KeyedTable.find?_modify]
  · split
    · rw [Option.map_map]
      rfl
    · rfl
  · exact fun _ => rfl

variable {step : Database → Result Database} {third : Database} {outcome : Except CoreError Unit}
  {envelopes : List EventEnvelope}

theorem otherProjectors_lifecycles
    (hStep : step ∈ (projectors env envelope).tail) (h : step db = .ok db') : SameLifecycles db db' := by
  obtain ⟨_, hLater, hWrote⟩ := exists_wrote_drop (drop_one ▸ hStep) h
  cases hWrote with
  | tasks => exact absurd hLater (by decide)
  | plans hApplied => exact hApplied ▸ plans_lifecycles db env envelope
  | _ => exact .of_tasks_eq rfl

theorem SameLifecycles.trans {first second : Database} (h : SameLifecycles first second)
    (h' : SameLifecycles second third) : SameLifecycles first third :=
  fun id => (h' id).trans (h id)

theorem projectors_lifecycles (h : Stateful.inTurn (projectors env envelope) db = (outcome, db'))
    (hNames : envelope.payload.NamesCreated) : (outcome ≠ .ok () ∧ SameLifecycles db db') ∨
      ∀ id, db'.lifecycleOf id = envelope.payload.lifecycle id (db.lifecycleOf id) := by
  rcases inTurn_cons h with ⟨e, _, rfl, rfl⟩ | ⟨middle, hTasks, hOthers⟩
  · exact .inl ⟨nofun, fun _ => rfl⟩
  · have hRest : SameLifecycles middle db' :=
      inTurn_rel (fun _ _ => rfl) (fun _ _ _ => .trans)
        (fun step hStep _ _ hRun => otherProjectors_lifecycles hStep hRun) hOthers
    exact .inr fun id => (hRest id).trans (tasks_lifecycles hTasks hNames id)

/-- Projecting a batch, however far it gets, has the effect of a first part of it,
and of all of it when nothing was refused. -/
theorem applyEvents_lifecycles (h : applyEvents env envelopes db = (outcome, db'))
    (hNames : ∀ envelope ∈ envelopes, envelope.payload.NamesCreated) :
    ∃ applied left, envelopes.map EventEnvelope.payload = applied ++ left ∧ (outcome = .ok () → left = []) ∧
      ∀ id, db'.lifecycleOf id = lifecycleAfter applied id (db.lifecycleOf id) := by
  induction envelopes generalizing db with
  | nil =>
    obtain ⟨_, rfl⟩ := pure_eq.mp h
    exact ⟨[], [], rfl, fun _ => rfl, fun _ => rfl⟩
  | cons envelope rest ih =>
    obtain ⟨hFirst, hRest⟩ := forall_mem_cons.mp hNames
    have hBoth : inTurn (projectors (env.part envelope.seq) envelope ++ batchProjectors env rest) db =
        (outcome, db') := h
    rw [inTurn_append] at hBoth
    cases hRun : inTurn (projectors (env.part envelope.seq) envelope) db with
    | mk first middle =>
    rw [hRun] at hBoth
    cases first with
    | error e =>
      cases hBoth
      rcases projectors_lifecycles hRun hFirst with ⟨_, hSame⟩ | hEffect
      · exact ⟨[], _, rfl, nofun, hSame⟩
      · exact ⟨[envelope.payload], _, rfl, nofun, hEffect⟩
    | ok done =>
      obtain ⟨applied, left, hSplit, hAll, hEffect⟩ := ih hBoth hRest
      refine ⟨envelope.payload :: applied, left, ?_, hAll, fun id => ?_⟩
      · rw [map_cons, hSplit, cons_append]
      · rcases projectors_lifecycles hRun hFirst with ⟨hRefused, _⟩ | hStep
        · exact absurd rfl hRefused
        · rw [hEffect, lifecycleAfter_cons, hStep]

/-- Keys that are distinct stay so. -/
def KeepsKeys (before after : Database) : Prop :=
  TaskRepo.KeysDistinct before.tasks → TaskRepo.KeysDistinct after.tasks

theorem KeepsKeys.refl (db : Database) : KeepsKeys db db := fun hKeys => hKeys

theorem KeepsKeys.trans {first second : Database} (h : KeepsKeys first second)
    (h' : KeepsKeys second third) : KeepsKeys first third :=
  fun hKeys => h' (h hKeys)

theorem projectors_keepKeys (hStep : step ∈ projectors env envelope) (h : step db = .ok db') : KeepsKeys db db' := by
  obtain ⟨_, hWrote⟩ := exists_wrote hStep h
  intro hKeys
  cases hWrote with
  | tasks hWritten => exact hKeys.applyEvent hWritten
  | plans hApplied =>
    rw [← hApplied]
    refine hKeys.of_rows fun row hRow => ?_
    obtain ⟨old, projectId, hOld, rfl⟩ := PlanRepo.applyEvent_taskRow (KeyedTable.find?_of_mem hRow)
    exact ⟨old, KeyedTable.mem_of_find? hOld, rfl, rfl⟩
  | _ => exact hKeys

theorem applyEvents_keepKeys (h : applyEvents env envelopes db = (outcome, db')) : KeepsKeys db db' := by
  refine inTurn_rel (fun _ hKeys => hKeys) (fun _ _ _ => KeepsKeys.trans) ?_ h
  intro step hStep before after hRun
  obtain ⟨envelope, _, hProjector⟩ := mem_flatMap.mp hStep
  exact projectors_keepKeys hProjector hRun

theorem projectors_ok (hSteady : envelope.payload.Steady) (hKeys : TaskRepo.KeysDistinct db.tasks)
    {step : Database → Result Database} (hStep : step ∈ projectors env envelope) : ∃ db', step db = .ok db' := by
  simp only [projectors, mem_cons, not_mem_nil, or_false] at hStep
  rcases hStep with rfl | rfl | rfl | rfl | rfl | rfl | rfl | rfl | rfl | rfl | rfl | rfl | rfl
  · unfold tasks TaskRepo.applyEvent
    split
    · rename_i event hPayload
      rw [hPayload] at hSteady
      have hTaken : ∃ written, TaskRepo.applyTaskEvent db.tasks env envelope event = .ok written :=
        hKeys.applyTaskEvent_ok hSteady
      obtain ⟨written, hWritten⟩ := hTaken
      exact ⟨_, by rw [hWritten]; rfl⟩
    · exact ⟨_, rfl⟩
  · exact ⟨_, rfl⟩
  · exact ⟨_, rfl⟩
  · exact ⟨_, rfl⟩
  · unfold RunNoteRepo.applyEvent
    split
    · rename_i hPayload
      rw [hPayload] at hSteady
      exact absurd hSteady not_false
    · exact ⟨_, rfl⟩
  · exact ⟨_, rfl⟩
  · unfold AgentClaimRepo.applyEvent
    split
    · rename_i hPayload
      rw [hPayload] at hSteady
      exact absurd hSteady not_false
    all_goals exact ⟨_, rfl⟩
  · exact ⟨_, rfl⟩
  · exact ⟨_, rfl⟩
  · unfold handoffs HandoffRepo.applyEvent
    split <;> first | exact ⟨_, rfl⟩ | (rename_i hPayload; rw [hPayload] at hSteady; exact absurd hSteady not_false)
  · unfold rules RuleRepo.applyEvent
    split <;> first | exact ⟨_, rfl⟩ | (rename_i hPayload; rw [hPayload] at hSteady; exact absurd hSteady not_false)
  · exact ⟨_, rfl⟩
  · unfold ArtifactRepo.applyEvent
    split
    · rename_i hPayload
      rw [hPayload] at hSteady
      exact absurd hSteady not_false
    · exact ⟨_, rfl⟩

theorem applyEvents_ok
    (hSteady : ∀ envelope ∈ envelopes, envelope.payload.Steady) (hKeys : TaskRepo.KeysDistinct db.tasks) :
    ∃ db', applyEvents env envelopes db = (.ok (), db') := by
  have hTotal : ∃ db', applyEvents env envelopes db = (.ok (), db') ∧ TaskRepo.KeysDistinct db'.tasks := by
    refine inTurn_total ?_ hKeys
    intro step hStep db hKeys
    obtain ⟨envelope, hMem, hProjector⟩ := mem_flatMap.mp hStep
    obtain ⟨db', hRun⟩ := projectors_ok (hSteady envelope hMem) hKeys hProjector
    exact ⟨db', hRun, projectors_keepKeys hProjector hRun hKeys⟩
  obtain ⟨db', hRun, _⟩ := hTotal
  exact ⟨db', hRun⟩

end Projections
end Daruma
