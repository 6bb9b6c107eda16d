import Daruma.Core.BlockedCompletions
import Daruma.Core.EvidenceStamps
import Daruma.Core.TaskOrigins

/-! The watchdogs: ticks that report overdue tasks and silent runs, what they remember of
their reports, and how often a report is put on record. -/
namespace Daruma

open List
open Server (serve recordedSince nthEnv)
open KeyedTable (mem_of_find? not_mem_empty find?_of_mem key_of_find? mem_modify mem_erase)
open EventEnvelope (payload new)

def Event.Dates (id : TaskId) (dueAt : Timestamp) : Event → Prop
  | .task (.taskUpdated taskId patch) => taskId = id ∧ patch.dueAt = some (some dueAt)
  | .task event => ∃ new ∈ event.created, (new.id = none ∨ new.id = some id) ∧ new.dueAt = some dueAt
  | _ => False

def Event.Starts (id : RunId) (event : Event) : Prop := ∃ run, event = .run (.runStarted run) ∧ run.id = id

structure Run.Marks (old run : Run) : Prop where
  id : old.id = run.id
  unresponsive : old.unresponsiveAt.isSome = true → run.unresponsiveAt.isSome = true
  stale : old.staleAt.isSome = true → run.staleAt.isSome = true

theorem Run.Marks.refl (run : Run) : run.Marks run := ⟨rfl, fun h => h, fun h => h⟩

theorem Run.Marks.trans {first second third : Run} (h : first.Marks second) (h' : second.Marks third) : first.Marks third :=
  ⟨h.id.trans h'.id, h'.unresponsive ∘ h.unresponsive, h'.stale ∘ h.stale⟩

/-- Every deadline was there or is one of some, and every run was there with its marks or is
one of some. -/
structure Traced (dated : TaskId → Timestamp → Prop) (started : RunId → Prop) (before after : Database) : Prop where
  tasks : ∀ row ∈ after.tasks, ∀ dueAt, row.dueAt = some dueAt →
    dated row.id dueAt ∨ ∃ old ∈ before.tasks, old.id = row.id ∧ old.dueAt = some dueAt
  runs : ∀ run ∈ after.runs, started run.id ∨ ∃ old ∈ before.runs, old.Marks run

section

variable {dated : TaskId → Timestamp → Prop} {started : RunId → Prop} {first second third db db' : Database}

theorem Traced.refl (db : Database) : Traced dated started db db :=
  ⟨fun row hRow _ hDue => .inr ⟨row, hRow, rfl, hDue⟩, fun run hRun => .inr ⟨run, hRun, .refl run⟩⟩

theorem Traced.trans (h : Traced dated started first second) (h' : Traced dated started second third) :
    Traced dated started first third := by
  constructor
  · intro row hRow dueAt hDue
    rcases h'.tasks row hRow dueAt hDue with hDated | ⟨middle, hMiddle, hId, hSame⟩
    · exact .inl hDated
    · rcases h.tasks middle hMiddle dueAt hSame with hDated | ⟨old, hOld, hOldId, hOldDue⟩
      · exact .inl (hId ▸ hDated)
      · exact .inr ⟨old, hOld, hOldId.trans hId, hOldDue⟩
  · intro run hRun
    rcases h'.runs run hRun with hStarted | ⟨middle, hMiddle, hMarks⟩
    · exact .inl hStarted
    · rcases h.runs middle hMiddle with hStarted | ⟨old, hOld, hOldMarks⟩
      · exact .inl (hMarks.id ▸ hStarted)
      · exact .inr ⟨old, hOld, hOldMarks.trans hMarks⟩

theorem Traced.of_same (hTasks : db'.tasks = db.tasks) (hRuns : db'.runs = db.runs) : Traced dated started db db' :=
  ⟨fun row hRow _ hDue => .inr ⟨row, hTasks ▸ hRow, rfl, hDue⟩, fun run hRun => .inr ⟨run, hRuns ▸ hRun, .refl run⟩⟩

theorem Traced.of_tasks (hRuns : db'.runs = db.runs) (hTasks : ∀ row ∈ db'.tasks, ∀ dueAt, row.dueAt = some dueAt →
    dated row.id dueAt ∨ ∃ old ∈ db.tasks, old.id = row.id ∧ old.dueAt = some dueAt) : Traced dated started db db' :=
  ⟨hTasks, fun run hRun => .inr ⟨run, hRuns ▸ hRun, .refl run⟩⟩

theorem Traced.of_runs (hTasks : db'.tasks = db.tasks)
    (hRuns : ∀ run ∈ db'.runs, started run.id ∨ ∃ old ∈ db.runs, old.Marks run) : Traced dated started db db' :=
  ⟨fun row hRow _ hDue => .inr ⟨row, hTasks ▸ hRow, rfl, hDue⟩, hRuns⟩

theorem Traced.mono {wider : TaskId → Timestamp → Prop} {more : RunId → Prop} (h : Traced dated started db db')
    (hDated : ∀ id dueAt, dated id dueAt → wider id dueAt) (hStarted : ∀ id, started id → more id) :
    Traced wider more db db' :=
  ⟨fun row hRow dueAt hDue => (h.tasks row hRow dueAt hDue).imp_left (hDated _ _),
    fun run hRun => (h.runs run hRun).imp_left (hStarted _)⟩

end

namespace TaskRepo

variable {tasks tasks' : Tasks} {env : Env} {envelope : EventEnvelope} {origin : TaskId → Timestamp → Prop}

/-- Every deadline is one that there may be. -/
def DatedFrom (origin : TaskId → Timestamp → Prop) (tasks : Tasks) : Prop :=
  ∀ task ∈ tasks, ∀ dueAt, task.dueAt = some dueAt → origin task.id dueAt

theorem DatedFrom.upsert {task : Task} (h : DatedFrom origin tasks) (hTask : ∀ dueAt, task.dueAt = some dueAt → origin task.id dueAt)
    (hUpserted : upsertTask tasks task = .ok tasks') : DatedFrom origin tasks' := by
  intro row hRow
  have hFound := find?_of_mem hRow
  rw [find?_upsertTask hUpserted] at hFound
  split at hFound
  · cases hFound
    exact hTask
  · exact h row (mem_of_find? hFound)

theorem DatedFrom.update {id : TaskId} {f : Task → Task} (h : DatedFrom origin tasks)
    (hUpdated : updateTask tasks id f = .ok tasks') (hId : ∀ task, (f task).id = task.id)
    (hDue : ∀ task dueAt, (f task).dueAt = some dueAt → task.dueAt = some dueAt ∨ origin id dueAt) : DatedFrom origin tasks' := by
  unfold updateTask at hUpdated
  split at hUpdated
  · cases hUpdated
    exact h
  · rename_i task hFound
    have hKey : task.id = id := key_of_find? hFound
    refine h.upsert (fun dueAt hSome => ?_) hUpdated
    rw [hId]
    rcases hDue task dueAt hSome with hOld | hOrigin
    · exact h task (mem_of_find? hFound) dueAt hOld
    · exact hKey ▸ hOrigin

theorem DatedFrom.inserted {new : NewTask} {sourceEventId : Option EventId} {minted : TaskId} (h : DatedFrom origin tasks)
    (hNew : ∀ id dueAt, (new.id = none ∨ new.id = some id) → new.dueAt = some dueAt → origin id dueAt)
    (hUpserted : upsertTask tasks (newTaskRow envelope sourceEventId minted new) = .ok tasks') : DatedFrom origin tasks' := by
  refine h.upsert (fun dueAt hDue => hNew _ dueAt ?_ hDue) hUpserted
  show new.id = none ∨ new.id = some (new.id.getD minted)
  cases new.id with
  | none => exact .inl rfl
  | some id => exact .inr rfl

theorem DatedFrom.subtasks {subtasks : List NewTask} {n : Nat} (h : DatedFrom origin tasks)
    (hNew : ∀ new ∈ subtasks, ∀ id dueAt, (new.id = none ∨ new.id = some id) → new.dueAt = some dueAt → origin id dueAt)
    (hInserted : insertSubtasks env envelope tasks n subtasks = .ok tasks') : DatedFrom origin tasks' := by
  induction subtasks generalizing tasks n with
  | nil =>
    cases hInserted
    exact h
  | cons new rest ih =>
    obtain ⟨hFirst, hRest⟩ := forall_mem_cons.mp hNew
    unfold insertSubtasks at hInserted
    split at hInserted
    · cases hInserted
    · rename_i middle hMiddle
      exact ih (h.inserted hFirst hMiddle) hRest hInserted

theorem DatedFrom.applyTaskEvent {event : TaskEvent} (h : DatedFrom origin tasks)
    (hEvent : ∀ id dueAt, (Event.task event).Dates id dueAt → origin id dueAt)
    (hApplied : applyTaskEvent tasks env envelope event = .ok tasks') : DatedFrom origin tasks' := by
  have hRewritten : ∀ {id : TaskId} {f : Task → Task}, updateTask tasks id f = .ok tasks' →
      (∀ task, (f task).id = task.id) → (∀ task, (f task).dueAt = task.dueAt) → DatedFrom origin tasks' := by
    intro id f hUpdated hId hDue
    exact h.update hUpdated hId fun task dueAt hSome => .inl ((hDue task).symm.trans hSome)
  cases event with
  | taskCreated new =>
    exact h.inserted (fun id dueAt hId hDue => hEvent id dueAt ⟨new, mem_cons_self, hId, hDue⟩) hApplied
  | taskSplitGenerated parent subtasks =>
    exact h.subtasks (fun new hNew id dueAt hId hDue => hEvent id dueAt ⟨new, hNew, hId, hDue⟩) hApplied
  | taskUpdated id patch =>
    unfold TaskRepo.applyTaskEvent at hApplied
    dsimp only at hApplied
    split at hApplied
    · cases hApplied
    rename_i patched hPatched
    have hDated : DatedFrom origin patched := by
      refine h.update hPatched (fun _ => rfl) fun task dueAt hDue => ?_
      change patch.dueAt.getD task.dueAt = some dueAt at hDue
      cases hPatch : patch.dueAt with
      | none =>
        rw [hPatch] at hDue
        exact .inl hDue
      | some given =>
        rw [hPatch] at hDue
        exact .inr (hEvent id dueAt ⟨rfl, hPatch.trans (congrArg some hDue)⟩)
    split at hApplied
    · cases hApplied
      exact hDated
    · cases hApplied
      exact forall_modified (fun _ => rfl) hDated fun row hRow _ => hDated row hRow
  | taskDeleted id =>
    cases hApplied
    intro row hRow
    exact h row (mem_erase.mp hRow).1
  | taskUnblocked | taskDueElapsed | taskContested =>
    cases hApplied
    exact h
  | _ => exact hRewritten hApplied (fun _ => rfl) fun _ => rfl

end TaskRepo

namespace PlanRepo

theorem applyEvent_dues (db : Database) (env : Env) (envelope : EventEnvelope) :
    ∀ row ∈ (applyEvent db env envelope).tasks, ∃ old ∈ db.tasks, old.id = row.id ∧ old.dueAt = row.dueAt := by
  intro row hRow
  obtain ⟨old, projectId, hOld, rfl⟩ := applyEvent_taskRow (find?_of_mem hRow)
  exact ⟨old, mem_of_find? hOld, rfl, rfl⟩

end PlanRepo

namespace RunRepo

variable {db : Database} {started : RunId → Prop}

theorem updateRun_marks {runId : RunId} {f : Run → Run} (hMarks : ∀ run : Run, run.Marks (f run)) :
    ∀ run ∈ (updateRun db runId f).runs, started run.id ∨ ∃ old ∈ db.runs, old.Marks run :=
  forall_modified (fun run => (hMarks run).id.symm) (fun run hRun => .inr ⟨run, hRun, .refl run⟩)
    fun run hRun _ => .inr ⟨run, hRun, hMarks run⟩

theorem applyRunEvent_marks {event : RunEvent} (hStarted : ∀ id, (Event.run event).Starts id → started id) :
    ∀ run ∈ (applyRunEvent db event).runs, started run.id ∨ ∃ old ∈ db.runs, old.Marks run := by
  have hTouched : ∀ (runId : RunId) (instant : Timestamp), ∀ run ∈ (touchActivity db runId instant).runs,
      started run.id ∨ ∃ old ∈ db.runs, old.Marks run :=
    fun runId instant => updateRun_marks fun _ => ⟨rfl, id, id⟩
  cases event with
  | runStarted started' =>
    intro run hRun
    rcases KeyedTable.mem_insertOrReplace.mp hRun with rfl | ⟨hOld, _⟩
    · exact .inl (hStarted _ ⟨started', rfl, rfl⟩)
    · exact .inr ⟨run, hOld, .refl run⟩
  | runStepStarted runId taskId instant => exact hTouched runId instant
  | runStepFinished runId taskId outcome instant =>
    intro run hRun
    refine hTouched runId instant run ?_
    change run ∈ (finishStepRow (touchActivity db runId instant) runId taskId outcome instant).runs at hRun
    unfold finishStepRow at hRun
    dsimp only at hRun
    split at hRun
    · exact hRun
    · exact hRun
  | runCompleted | runFailed | runAborted => exact updateRun_marks fun _ => ⟨rfl, id, id⟩
  | runUnresponsive runId instant =>
    refine updateRun_marks fun run => ⟨rfl, fun hSome => ?_, id⟩
    show (run.unresponsiveAt.or (some instant)).isSome = true
    simp
  | runStale runId instant =>
    refine updateRun_marks fun run => ⟨rfl, id, fun hSome => ?_⟩
    show (run.staleAt.or (some instant)).isSome = true
    simp
  | _ => exact fun run hRun => .inr ⟨run, hRun, .refl run⟩

end RunRepo

namespace Projections

variable {env : Env} {envelope : EventEnvelope} {envelopes : List EventEnvelope} {db db' : Database}
  {dated : TaskId → Timestamp → Prop} {started : RunId → Prop} {outcome : Except CoreError Unit}

theorem projectors_traced (hDated : ∀ id dueAt, envelope.payload.Dates id dueAt → dated id dueAt)
    (hStarted : ∀ id, envelope.payload.Starts id → started id)
    {step : Database → Result Database} (hStep : step ∈ projectors env envelope) (h : step db = .ok db') :
    Traced dated started db db' := by
  obtain ⟨_, hWrote⟩ := exists_wrote hStep h
  cases hWrote with
  | tasks hApplied =>
    unfold TaskRepo.applyEvent at hApplied
    split at hApplied
    · rename_i event hPayload
      rw [hPayload] at hDated
      have hBefore : TaskRepo.DatedFrom (fun id dueAt => dated id dueAt ∨ ∃ old ∈ db.tasks, old.id = id ∧ old.dueAt = some dueAt)
          db.tasks := fun task hTask dueAt hDue => .inr ⟨task, hTask, rfl, hDue⟩
      exact .of_tasks rfl (hBefore.applyTaskEvent (fun id dueAt hDates => .inl (hDated id dueAt hDates)) hApplied)
    · cases hApplied
      exact .refl db
  | plans hApplied =>
    refine .of_tasks rfl fun row hRow dueAt hDue => ?_
    rw [← hApplied] at hRow
    obtain ⟨old, hOld, hId, hSame⟩ := PlanRepo.applyEvent_dues db env envelope row hRow
    exact .inr ⟨old, hOld, hId, hSame.trans hDue⟩
  | runs hApplied =>
    rw [← hApplied]
    unfold RunRepo.applyEvent
    split
    · rename_i event hPayload
      rw [hPayload] at hStarted
      refine .of_runs ?_ (RunRepo.applyRunEvent_marks hStarted)
      obtain ⟨_, _, _, hFrame⟩ := RunRepo.applyRunEvent_frame db event
      rw [hFrame]
    · exact .refl db
  | _ => exact .of_same rfl rfl

/-- A batch gives the deadlines and starts the runs that its events do, however far it gets. -/
theorem applyEvents_traced (hDated : ∀ event ∈ envelopes.map payload, ∀ id dueAt, event.Dates id dueAt → dated id dueAt)
    (hStarted : ∀ event ∈ envelopes.map payload, ∀ id, event.Starts id → started id)
    (h : applyEvents env envelopes db = (outcome, db')) : Traced dated started db db' := by
  refine Stateful.inTurn_rel .refl (fun _ _ _ => .trans) ?_ h
  intro step hStep before after hTaken
  obtain ⟨envelope, hEnvelope, hProjector⟩ := mem_flatMap.mp hStep
  have hPayload : envelope.payload ∈ envelopes.map payload := mem_map_of_mem hEnvelope
  exact projectors_traced (hDated _ hPayload) (hStarted _ hPayload) hProjector hTaken

end Projections

namespace AgentClaimRepo

variable {db db' : Database} {env : Env} {actor : Actor} {envelopes persisted : List EventEnvelope}

def KeepsMarks (before after : Database) : Prop := ∀ run ∈ after.runs, ∃ old ∈ before.runs, old.Marks run

theorem KeepsMarks.of_same (h : db'.runs = db.runs) : KeepsMarks db db' := fun run hRun => ⟨run, h ▸ hRun, .refl run⟩

theorem keepsMarks_ended {runId : RunId} {f : Run → Run} {claims : AgentClaims}
    {owners : KeyedTable RunId RunClaimOwner RunClaimOwner.runId} (hMarks : ∀ run : Run, run.Marks (f run)) :
    KeepsMarks db { db with runs := db.runs.modify runId f, agentClaims := claims, runClaimOwners := owners } := by
  have hRuns : ∀ run ∈ db.runs.modify runId f, ∃ old ∈ db.runs, old.Marks run := by
    refine forall_modified (fun run => (hMarks run).id.symm) (fun run hRun => ?_) fun run hRun _ => ?_
    · exact ⟨run, hRun, .refl run⟩
    · exact ⟨run, hRun, hMarks run⟩
  exact hRuns

theorem endRuns_keepsMarks (status : RunStatus) (reason : String) (endedAt : Timestamp) (ended : List Run) (db : Database) :
    KeepsMarks db (endRuns db status reason endedAt ended).1 := by
  induction ended generalizing db with
  | nil => exact .of_same rfl
  | cons run rest ih =>
    unfold endRuns
    dsimp only
    intro row hRow
    obtain ⟨middle, hMiddle, hLater⟩ := ih _ row hRow
    have hEnded : ∃ old ∈ db.runs, old.Marks middle := by
      refine keepsMarks_ended ?_ middle hMiddle
      exact fun _ => ⟨rfl, id, id⟩
    obtain ⟨old, hOld, hFirst⟩ := hEnded
    exact ⟨old, hOld, hFirst.trans hLater⟩

theorem appendBatch_keepsMarks {middle : Database} (hBefore : KeepsMarks db middle)
    (h : appendBatch middle envelopes = .ok (persisted, db')) : KeepsMarks db db' := by
  obtain ⟨_, _, rfl⟩ := (appendBatch_ok h).2.2
  exact hBefore

end AgentClaimRepo

namespace Handler

open AgentClaimRepo (KeepsMarks keepsMarks_ended endRuns_keepsMarks appendBatch_keepsMarks)

variable {config : Config} {env : Env} {caller : Caller} {command : Command} {actor claimed : Actor} {db db' : Database}
  {batch : List Event} {relations : Relations} {trail : GateStage.Trail} {persisted : List EventEnvelope}
  {appended : Database}

theorem persist_keepsMarks {envelopes : List EventEnvelope}
    (h : persist db env caller actor command envelopes = .ok (persisted, db')) : KeepsMarks db db' := by
  have hTerminal : ∀ {agentId isAdmin}, AgentClaimRepo.recordRunTerminal db env actor agentId isAdmin envelopes =
      .ok (persisted, db') → KeepsMarks db db' := by
    intro agentId isAdmin hRecorded
    unfold AgentClaimRepo.recordRunTerminal at hRecorded
    split at hRecorded
    · cases hRecorded
    split at hRecorded
    · cases hRecorded
    dsimp only at hRecorded
    split at hRecorded
    · cases hRecorded
    split at hRecorded
    · cases hRecorded
    split at hRecorded
    · cases hRecorded
    · refine appendBatch_keepsMarks ?_ hRecorded
      refine keepsMarks_ended ?_
      exact fun _ => ⟨rfl, id, id⟩
  unfold persist at h
  split at h
  · unfold AgentClaimRepo.recordRunStarted at h
    dsimp only at h
    split at h
    · cases h
    · split at h
      · cases h
      · refine appendBatch_keepsMarks ?_ h
        exact .of_same rfl
  · exact hTerminal h
  · exact hTerminal h
  · split at h
    · unfold AgentClaimRepo.recordTaskLifecycle at h
      refine appendBatch_keepsMarks ?_ h
      exact .of_same rfl
    · split at h
      · unfold AgentClaimRepo.recordPlanTerminal at h
        split at h
        · cases h
        dsimp only at h
        split at h
        · cases h
        · exact appendBatch_keepsMarks (endRuns_keepsMarks _ _ _ _ db) h
      · exact appendBatch_keepsMarks (.of_same rfl) h

end Handler

deriving instance DecidableEq for WatchdogSignal

def Event.report : Event → Option WatchdogSignal
  | .task (.taskDueElapsed taskId dueAt _) => some (.taskDueElapsed taskId dueAt)
  | .run (.runUnresponsive runId _) => some (.runUnresponsive runId)
  | .run (.runStale runId _) => some (.runStale runId)
  | _ => none

def Database.reports (db : Database) : List WatchdogSignal :=
  db.events.rows.filterMap fun envelope => envelope.payload.report

/-- The log grows by these events, which are no reports, and no deadline and no run is new
but theirs. -/
structure UnreportedBy (later : List EventEnvelope) (before after : Database) : Prop where
  log : after.events.rows = before.events.rows ++ later
  quiet : ∀ event ∈ later.map payload, event.report = none
  traced : Traced (fun id dueAt => ∃ event ∈ later.map payload, event.Dates id dueAt)
    (fun id => ∃ event ∈ later.map payload, event.Starts id) before after

/-- Nothing is reported. -/
def Unreported (before after : Database) : Prop := ∃ later, UnreportedBy later before after

namespace Unreported

variable {first second third db db' : Database}

theorem refl (db : Database) : Unreported db db :=
  ⟨[], (append_nil _).symm, fun _ hMem => absurd hMem not_mem_nil, .refl db⟩

theorem trans (h : Unreported first second) (h' : Unreported second third) : Unreported first third := by
  obtain ⟨later, hLater⟩ := h
  obtain ⟨last, hLast⟩ := h'
  refine ⟨later ++ last, by rw [hLast.log, hLater.log, append_assoc], ?_, ?_⟩
  · rw [map_append]
    exact forall_mem_append.mpr ⟨hLater.quiet, hLast.quiet⟩
  · rw [map_append]
    refine .trans (hLater.traced.mono ?_ ?_) (hLast.traced.mono ?_ ?_)
    · exact fun id dueAt ⟨event, hMem, hDates⟩ => ⟨event, mem_append_left _ hMem, hDates⟩
    · exact fun id ⟨event, hMem, hStarts⟩ => ⟨event, mem_append_left _ hMem, hStarts⟩
    · exact fun id dueAt ⟨event, hMem, hDates⟩ => ⟨event, mem_append_right _ hMem, hDates⟩
    · exact fun id ⟨event, hMem, hStarts⟩ => ⟨event, mem_append_right _ hMem, hStarts⟩

end Unreported

namespace UnreportedBy

variable {first second third db db' : Database}

theorem of_append {stored : List EventEnvelope} (hLog : db'.events.rows = db.events.rows ++ stored)
    (hQuiet : ∀ event ∈ stored.map payload, event.report = none) (hTasks : db'.tasks = db.tasks)
    (hRuns : AgentClaimRepo.KeepsMarks db db') : UnreportedBy stored db db' :=
  ⟨hLog, hQuiet, .of_runs hTasks fun run hRun => .inr (hRuns run hRun)⟩

theorem projected {stored : List EventEnvelope} {env : Env} {outcome : Except CoreError Unit}
    (h : UnreportedBy stored first second) (hApplied : Projections.applyEvents env stored second = (outcome, third)) :
    UnreportedBy stored first third := by
  refine ⟨(Projections.applyEvents_sameLog hApplied).1.symm ▸ h.log, h.quiet, h.traced.trans ?_⟩
  exact Projections.applyEvents_traced (fun event hMem id dueAt hDates => ⟨event, hMem, hDates⟩)
    (fun event hMem id hStarts => ⟨event, hMem, hStarts⟩) hApplied

end UnreportedBy

theorem Unreported.of_writes {logged : Event → Prop} {db middle after : Database} (h : WritesLog logged middle after)
    (hTables : middle.tasks = db.tasks ∧ middle.runs = db.runs) (hLog : middle.events = db.events)
    (hQuiet : ∀ event, logged event → event.report = none) : Unreported db after := by
  obtain ⟨_, _, _, _, later, _, rfl, hRows, hLater, _⟩ := h
  exact ⟨later, .of_append (hLog ▸ hRows) (forall_mem_map.mpr fun envelope hMem => hQuiet _ (hLater envelope hMem))
    hTables.1 (.of_same hTables.2)⟩

namespace AutoAppend

theorem persistSignalEvent_unreported {env : Env} {actor : Actor} {event : Event} (hQuiet : event.report = none)
    (db : Database) : Unreported db (persistSignalEvent env actor event db).2 := by
  cases hRun : persistSignalEvent env actor event db with
  | mk outcome db' =>
  rcases persistSignalEvent_cases hRun with rfl | ⟨persisted, appended, hAppend, hApplied⟩
  · exact .refl db'
  · obtain ⟨hPayloads, hRows, _, _, rfl⟩ := appendBatch_ok hAppend
    rw [map_singleton] at hPayloads
    refine ⟨persisted, UnreportedBy.projected (.of_append hRows ?_ rfl (.of_same rfl)) hApplied⟩
    intro recorded hMem
    rw [hPayloads] at hMem
    cases mem_singleton.mp hMem
    exact hQuiet

end AutoAppend

namespace Handler

variable {config : Config} {env : Env} {caller : Caller} {command : Command} {claimed : Actor} {db : Database}
  {batch : List Event} {relations : Relations} {trail : GateStage.Trail} {persisted : List EventEnvelope}
  {appended : Database}

theorem Accepted.unreported
    (h : Accepted config env caller command claimed db batch relations trail persisted appended) :
    ∀ event ∈ persisted.map payload, event.report = none := by
  refine h.payload_rule (fun {f event} hRelinking hEvent => ?_) (fun _ => rfl) fun _ _ _ => rfl
  rw [hRelinking.reads Event.report fun _ _ => rfl]
  cases event with
  | task event =>
    cases event with
    | taskDueElapsed => exact absurd (h.sanctioned _ hEvent) not_false
    | _ => rfl
  | run event =>
    cases event with
    | runUnresponsive | runStale => exact absurd (h.warranted hEvent rfl) not_false
    | _ => rfl
  | _ => rfl

theorem handle_unreported (db : Database) :
    Unreported db (handleWithRunOwner config env caller command claimed db).2 := by
  refine handle_rule (fun hAudited => ?_) (fun hAccepted hApplied => ?_)
    fun hLines hApplied => hApplied.trans (.of_writes hLines ⟨rfl, rfl⟩ rfl fun _ ⟨_, _, _, hIs⟩ => hIs ▸ rfl)
  · obtain ⟨audit, hAudit, hLog, _, _, _, rfl⟩ := hAudited
    refine ⟨audit, .of_append hLog (fun event hMem => ?_) rfl (.of_same rfl)⟩
    obtain ⟨envelope, hEnvelope, rfl⟩ := mem_map.mp hMem
    have hIsAudit := hAudit envelope hEnvelope
    generalize envelope.payload = event at hIsAudit
    cases event with
    | audit => rfl
    | _ => cases hIsAudit
  · have hMarks := persist_keepsMarks hAccepted.stored
    exact ⟨_, .projected (.of_append hAccepted.log hAccepted.unreported hAccepted.tasks_eq hMarks) hApplied⟩

end Handler

namespace Server

variable {config : Config} {db : Database}

def Call.isReport : Call → Bool
  | .signal _ (.orphanDocumentArchived ..) => false
  | .signal .. => true
  | _ => false

theorem serve_unreported {call : Call} (hCall : Call.isReport call = false) (db : Database) :
    Unreported db (serve config db call) := by
  cases call with
  | command env caller command claimed => exact Handler.handle_unreported db
  | signal env signal =>
    refine AutoAppend.persistSignalEvent_unreported ?_ db
    cases signal with
    | orphanDocumentArchived => rfl
    | _ => cases hCall
  | _ =>
    refine serve_claims rfl rfl fun ⟨_, hWrites⟩ => .of_writes hWrites ⟨rfl, rfl⟩ rfl ?_
    rintro event (⟨_, _, _, rfl⟩ | ⟨_, rfl⟩) <;> rfl

end Server

/-- A row of `task_due_notifications`: the deadline that a task was last reported for. -/
structure DueNotification where
  taskId : TaskId
  dueAt : Timestamp
  notifiedAt : Timestamp

abbrev DueNotifications := KeyedTable TaskId DueNotification DueNotification.taskId

namespace TaskRepo

/-- The task was reported for this deadline, as far as the table remembers. -/
def isNotified (notifications : DueNotifications) (taskId : TaskId) (dueAt : Timestamp) : Bool :=
  (notifications.find? taskId).any fun row => row.dueAt = dueAt

/-- Open tasks whose deadline has passed and was not reported, the earliest deadlines first. -/
def listDueUnnotified (db : Database) (notifications : DueNotifications) (now : Timestamp) (limit : Nat) :
    List (TaskId × Timestamp) :=
  (orderBy Prod.snd (db.tasks.rows.filterMap fun task => task.dueAt.bind fun dueAt =>
    if dueAt < now && task.status ∈ [.inbox, .todo, .inProgress, .inReview] && !isNotified notifications task.id dueAt then
      some (task.id, dueAt)
    else none)).take limit

end TaskRepo

namespace RunRepo

/-- Active runs without a step since they started, some time ago. -/
def listUnresponsiveCandidates (db : Database) (threshold : Duration) (now : Timestamp) : List RunId :=
  (db.runs.rows.filter fun run => run.status = .active && run.unresponsiveAt.isNone &&
    run.lastActivityAt = some run.startedAt && run.startedAt ≤ now - threshold).map Run.id

/-- Active runs in which nothing has happened for some time. -/
def listStaleCandidates (db : Database) (threshold : Duration) (now : Timestamp) : List RunId :=
  (db.runs.rows.filter fun run => run.status = .active && run.staleAt.isNone &&
    run.lastActivityAt.any (· ≤ now - threshold)).map Run.id

end RunRepo

/-- A tick under way: the instant that it read, and the candidates that it has left. -/
structure Tick (Candidate : Type) where
  now : Timestamp
  candidates : List Candidate

structure Watch where
  db : Database
  notifications : DueNotifications
  due : Tick (TaskId × Timestamp)
  unresponsive : Tick RunId
  stale : Tick RunId

/-- A call of the server, a tick that lists its candidates, the report of the next one, or
a stop of the server. It may also stop when a report is appended and not projected. -/
inductive WatchStep where
  | call (call : Call)
  | listDue (now : Timestamp)
  | reportDue (env : Env) (stops : Bool)
  | listUnresponsive (now : Timestamp) (ack : Duration)
  | reportUnresponsive (env : Env) (stops : Bool)
  | listStale (now : Timestamp) (idle : Duration)
  | reportStale (env : Env) (stops : Bool)
  | stop

namespace Watch

def start : Watch := ⟨.empty, .empty, ⟨0, []⟩, ⟨0, []⟩, ⟨0, []⟩⟩

/-- The ticks are in memory only. -/
def restarted (watch : Watch) : Watch :=
  { watch with due := ⟨0, []⟩, unresponsive := ⟨0, []⟩, stale := ⟨0, []⟩ }

/-- A task takes its notification along when it is deleted. -/
def forget (before after : Database) (notifications : DueNotifications) : DueNotifications :=
  notifications.filter fun row => !(before.tasks.contains row.taskId && !after.tasks.contains row.taskId)

/-- Append a report and, unless the server stops, project it. The answer says whether the
tick goes on. -/
def report (env : Env) (now : Timestamp) (signal : WatchdogSignal) (stops : Bool) (db : Database) :
    Result (Database × Bool) :=
  match appendBatch db [new (env.fresh 0) env.now .anyUser (signal.event now)] with
  | .error e => .error e
  | .ok (persisted, appended) =>
    if stops then .ok (appended, false)
    else
      let (outcome, applied) := Projections.applyEvents (env.part 1) persisted appended
      .ok (applied, outcome matches .ok ())

/-- What the projection of tasks keeps of a report. -/
def remember (signal : WatchdogSignal) (now : Timestamp) (notifications : DueNotifications) : DueNotifications :=
  match signal with
  | .taskDueElapsed taskId dueAt => notifications.insertOrReplace ⟨taskId, dueAt, now⟩
  | _ => notifications

/-- Report one candidate, and go on with the others when it was reported. -/
def reportOne (watch : Watch) (env : Env) (now : Timestamp) (signal : WatchdogSignal) (stops : Bool)
    (others : Bool → Watch → Watch) : Watch :=
  match report env now signal stops watch.db with
  | .error _ => others false watch
  | .ok (db, goesOn) =>
    if stops then { watch with db := db }.restarted
    else others goesOn { watch with db := db, notifications := remember signal now watch.notifications }

def next (config : Config) (watch : Watch) : WatchStep → Watch
  | .call call =>
    if Server.Call.isReport call then watch
    else
      let served := serve config watch.db call
      { watch with db := served, notifications := forget watch.db served watch.notifications }
  | .listDue now =>
    if watch.due.candidates.isEmpty then
      { watch with due := ⟨now, TaskRepo.listDueUnnotified watch.db watch.notifications now 100⟩ }
    else watch
  | .reportDue env stops =>
    match watch.due.candidates with
    | [] => watch
    | (taskId, dueAt) :: rest =>
      watch.reportOne env watch.due.now (.taskDueElapsed taskId dueAt) stops fun goesOn watch =>
        { watch with due := ⟨watch.due.now, if goesOn then rest else []⟩ }
  | .listUnresponsive now ack =>
    if watch.unresponsive.candidates.isEmpty then
      { watch with unresponsive := ⟨now, RunRepo.listUnresponsiveCandidates watch.db ack now⟩ }
    else watch
  | .reportUnresponsive env stops =>
    match watch.unresponsive.candidates with
    | [] => watch
    | runId :: rest =>
      watch.reportOne env watch.unresponsive.now (.runUnresponsive runId) stops fun goesOn watch =>
        { watch with unresponsive := ⟨watch.unresponsive.now, if goesOn then rest else []⟩ }
  | .listStale now idle =>
    if watch.stale.candidates.isEmpty then
      { watch with stale := ⟨now, RunRepo.listStaleCandidates watch.db idle now⟩ }
    else watch
  | .reportStale env stops =>
    match watch.stale.candidates with
    | [] => watch
    | runId :: rest =>
      watch.reportOne env watch.stale.now (.runStale runId) stops fun goesOn watch =>
        { watch with stale := ⟨watch.stale.now, if goesOn then rest else []⟩ }
  | .stop => watch.restarted

def run (config : Config) (steps : List WatchStep) : Watch := steps.foldl (next config) start

/-- No event of a call gives a task a deadline that it was reported for and that the table
does not remember, or starts a run under an id that was reported. No report takes the place
of the notification of the deadline that its task has, and the server does not stop when a
report is appended and not projected. -/
def Clear (config : Config) (watch : Watch) : WatchStep → Prop
  | .call call => ∀ event ∈ recordedSince watch.db (serve config watch.db call),
      (∀ id dueAt, event.Dates id dueAt → .taskDueElapsed id dueAt ∈ watch.db.reports →
        TaskRepo.isNotified watch.notifications id dueAt = true) ∧
      ∀ id, event.Starts id → .runUnresponsive id ∉ watch.db.reports ∧ .runStale id ∉ watch.db.reports
  | .reportDue _ stops => ∀ taskId dueAt rest, watch.due.candidates = (taskId, dueAt) :: rest → stops = false ∧
      ∀ task ∈ watch.db.tasks, task.id = taskId → ∀ other, task.dueAt = some other → other ≠ dueAt →
        .taskDueElapsed taskId other ∉ watch.db.reports
  | .reportUnresponsive _ stops => watch.unresponsive.candidates ≠ [] → stops = false
  | .reportStale _ stops => watch.stale.candidates ≠ [] → stops = false
  | _ => True

/-- The reports that are still to come. -/
def pending (watch : Watch) : List WatchdogSignal :=
  watch.due.candidates.map (fun candidate => .taskDueElapsed candidate.1 candidate.2) ++
    (watch.unresponsive.candidates.map .runUnresponsive ++ watch.stale.candidates.map .runStale)

/-- No report is or will be repeated, and the rows remember every report that they could
give rise to again. -/
structure Remembered (watch : Watch) : Prop where
  once : (watch.db.reports ++ watch.pending).Nodup
  due : ∀ task ∈ watch.db.tasks, ∀ dueAt, task.dueAt = some dueAt → .taskDueElapsed task.id dueAt ∈ watch.db.reports →
    TaskRepo.isNotified watch.notifications task.id dueAt = true
  unresponsive : ∀ run ∈ watch.db.runs, .runUnresponsive run.id ∈ watch.db.reports → run.unresponsiveAt.isSome = true
  stale : ∀ run ∈ watch.db.runs, .runStale run.id ∈ watch.db.reports → run.staleAt.isSome = true

end Watch

variable {later : List EventEnvelope}

theorem Database.reports_append {db db' : Database} (h : db'.events.rows = db.events.rows ++ later) :
    db'.reports = db.reports ++ later.filterMap fun envelope => envelope.payload.report := by
  rw [reports, h, filterMap_append]
  rfl

theorem UnreportedBy.reports {db db' : Database} (h : UnreportedBy later db db') : db'.reports = db.reports := by
  have hNone : later.filterMap (fun envelope => envelope.payload.report) = [] :=
    filterMap_eq_nil_iff.2 fun envelope hMem => h.quiet _ (mem_map_of_mem hMem)
  rw [Database.reports_append h.log, hNone, append_nil]

namespace RunRepo

def MarkedBy (signal : WatchdogSignal) (run : Run) : Prop :=
  (signal = .runUnresponsive run.id → run.unresponsiveAt.isSome = true) ∧
    (signal = .runStale run.id → run.staleAt.isSome = true)

theorem MarkedBy.marks {signal : WatchdogSignal} {old run : Run} (h : MarkedBy signal old) (hMarks : old.Marks run) :
    MarkedBy signal run :=
  ⟨fun hIs => hMarks.unresponsive (h.1 (hMarks.id ▸ hIs)), fun hIs => hMarks.stale (h.2 (hMarks.id ▸ hIs))⟩

theorem applyEvent_marked {db : Database} {signal : WatchdogSignal} {now : Timestamp} {envelope : EventEnvelope}
    (hPayload : envelope.payload = signal.event now) : ∀ run ∈ (applyEvent db envelope).runs, MarkedBy signal run := by
  intro run hRun
  unfold applyEvent at hRun
  rw [hPayload] at hRun
  cases signal with
  | runUnresponsive runId =>
    have hModified := (mem_modify (f := fun run : Run =>
      { run with unresponsiveAt := run.unresponsiveAt.or (some now) }) fun _ => rfl).mp hRun
    rcases hModified with ⟨old, _, _, rfl⟩ | ⟨_, hOther⟩
    · refine ⟨fun _ => ?_, fun hIs => by cases hIs⟩
      show (old.unresponsiveAt.or (some now)).isSome = true
      simp
    · exact ⟨fun hIs => absurd (WatchdogSignal.runUnresponsive.inj hIs).symm hOther, fun hIs => by cases hIs⟩
  | runStale runId =>
    have hModified := (mem_modify (f := fun run : Run =>
      { run with staleAt := run.staleAt.or (some now) }) fun _ => rfl).mp hRun
    rcases hModified with ⟨old, _, _, rfl⟩ | ⟨_, hOther⟩
    · refine ⟨(fun hIs => by cases hIs), fun _ => ?_⟩
      show (old.staleAt.or (some now)).isSome = true
      simp
    · exact ⟨(fun hIs => by cases hIs), fun hIs => absurd (WatchdogSignal.runStale.inj hIs).symm hOther⟩
  | _ => exact ⟨(fun hIs => by cases hIs), (fun hIs => by cases hIs)⟩

end RunRepo

namespace Projections

variable {env : Env} {envelope : EventEnvelope} {db db' : Database} {outcome : Except CoreError Unit}
  {signal : WatchdogSignal} {now : Timestamp}

theorem report_traced (hPayload : envelope.payload = signal.event now) {step : Database → Result Database}
    (hStep : step ∈ projectors env envelope) (h : step db = .ok db') :
    Traced (fun _ _ => False) (fun _ => False) db db' := by
  refine projectors_traced ?_ ?_ hStep h
  · intro id dueAt hDates
    rw [hPayload] at hDates
    cases signal with
    | taskDueElapsed =>
      obtain ⟨_, hNew, _⟩ := hDates
      cases hNew
    | _ => exact hDates
  · rintro id ⟨run, hIs, _⟩
    rw [hPayload] at hIs
    cases signal <;> cases hIs

/-- Every projection before that of runs takes a report, and none after it takes a mark away. -/
theorem applyEvents_marked (hPayload : envelope.payload = signal.event now)
    (h : applyEvents env [envelope] db = (outcome, db')) :
    Traced (fun _ _ => False) (fun _ => False) db db' ∧ ∀ run ∈ db'.runs, RunRepo.MarkedBy signal run := by
  have hSteps : batchProjectors env [envelope] = projectors (env.part envelope.seq) envelope := append_nil _
  unfold applyEvents at h
  rw [hSteps] at h
  refine ⟨Stateful.inTurn_rel .refl (fun _ _ _ => .trans) (fun step hStep _ _ => report_traced hPayload hStep) h, ?_⟩
  have hTasks : ∀ db, tasks (env.part envelope.seq) envelope db = .ok db := by
    intro db
    unfold tasks TaskRepo.applyEvent
    rw [hPayload]
    cases signal <;> rfl
  rw [← take_append_drop 4 (projectors (env.part envelope.seq) envelope), Stateful.inTurn_append] at h
  have hFirst : Stateful.inTurn ((projectors (env.part envelope.seq) envelope).take 4) db =
      (.ok (), RunRepo.applyEvent (PlanRepo.applyEvent (records envelope db) (env.part envelope.seq) envelope) envelope) := by
    change Stateful.inTurn [tasks (env.part envelope.seq) envelope, _, _, _] db = _
    unfold Stateful.inTurn
    rw [hTasks]
    rfl
  rw [hFirst] at h
  intro run hRun
  have hRest : Traced (fun _ _ => False) (fun _ => False)
      (RunRepo.applyEvent (PlanRepo.applyEvent (records envelope db) (env.part envelope.seq) envelope) envelope) db' :=
    Stateful.inTurn_rel .refl (fun _ _ _ => .trans)
      (fun step hStep _ _ => report_traced hPayload (mem_of_mem_drop hStep)) h
  obtain ⟨old, hOld, hMarks⟩ := (hRest.runs run hRun).resolve_left not_false
  exact (RunRepo.applyEvent_marked hPayload old hOld).marks hMarks

end Projections

namespace Watch

variable {config : Config} {watch : Watch} {signal : WatchdogSignal} {db db' : Database}

def IsReport (signal : WatchdogSignal) : Prop := ∀ now, (signal.event now).report = some signal

/-- What a report that is projected leaves. -/
structure Emitted (signal : WatchdogSignal) (before after : Database) : Prop where
  reports : after.reports = before.reports ++ [signal]
  traced : Traced (fun _ _ => False) (fun _ => False) before after
  marked : ∀ run ∈ after.runs, RunRepo.MarkedBy signal run

theorem report_emitted {env : Env} {now : Timestamp} {goesOn : Bool} (hSignal : IsReport signal)
    (h : report env now signal false db = .ok (db', goesOn)) : Emitted signal db db' := by
  unfold report at h
  split at h
  · cases h
  · rename_i persisted appended hAppend
    obtain ⟨hPayloads, hRows, _, _, rfl⟩ := appendBatch_ok hAppend
    obtain ⟨envelope, rfl⟩ : ∃ envelope, persisted = [envelope] := by
      have hLength := congrArg List.length hPayloads
      rw [length_map, length_map] at hLength
      exact length_eq_one_iff.1 hLength
    have hPayload : envelope.payload = signal.event now := (List.cons.inj hPayloads).1
    rw [if_neg Bool.false_ne_true] at h
    cases hApplied : Projections.applyEvents (env.part 1) [envelope] _ with
    | mk outcome applied =>
    rw [hApplied] at h
    cases h
    obtain ⟨hTraced, hMarked⟩ := Projections.applyEvents_marked hPayload hApplied
    refine ⟨?_, ⟨hTraced.tasks, hTraced.runs⟩, hMarked⟩
    have hLog := (Projections.applyEvents_sameLog hApplied).1
    refine (Database.reports_append (hLog.symm ▸ hRows)).trans ?_
    rw [filterMap_cons, hPayload, hSignal now]
    rfl

theorem reportOne_cases {env : Env} {now : Timestamp} {stops : Bool} {others : Bool → Watch → Watch} (hSignal : IsReport signal)
    {property : Watch → Prop} (hStops : stops = false) (hRefused : property (others false watch))
    (hReported : ∀ db' goesOn, Emitted signal watch.db db' →
      property (others goesOn { watch with db := db', notifications := remember signal now watch.notifications })) :
    property (watch.reportOne env now signal stops others) := by
  subst hStops
  unfold reportOne
  split
  · exact hRefused
  · rename_i reported
    exact hReported _ _ (report_emitted hSignal reported)

variable {notifications : DueNotifications} {id : TaskId} {dueAt : Timestamp} {due : Tick (TaskId × Timestamp)}
  {unresponsive stale : Tick RunId} {stops : Bool}

theorem isNotified_remember {taskId : TaskId} {other now : Timestamp} :
    TaskRepo.isNotified (remember (.taskDueElapsed taskId dueAt) now notifications) id other =
      if taskId = id then decide (dueAt = other) else TaskRepo.isNotified notifications id other := by
  unfold TaskRepo.isNotified remember
  dsimp only
  rw [KeyedTable.find?_insertOrReplace]
  split
  · rfl
  · rfl

theorem Remembered.emitted (now : Timestamp) {due : Tick (TaskId × Timestamp)} {unresponsive stale : Tick RunId}
    (h : watch.Remembered) (hEmitted : Emitted signal watch.db db')
    (hOnce : ((watch.db.reports ++ [signal]) ++ pending ⟨db', remember signal now watch.notifications, due, unresponsive, stale⟩).Nodup)
    (hOwn : ∀ taskId dueAt, signal = .taskDueElapsed taskId dueAt → ∀ task ∈ watch.db.tasks, task.id = taskId →
      ∀ other, task.dueAt = some other → other ≠ dueAt → .taskDueElapsed taskId other ∉ watch.db.reports) :
    Remembered ⟨db', remember signal now watch.notifications, due, unresponsive, stale⟩ := by
  have hReports : ∀ {other}, other ∈ db'.reports → other ∈ watch.db.reports ∨ other = signal := by
    intro other hMem
    rw [hEmitted.reports] at hMem
    exact (mem_append.1 hMem).imp_right mem_singleton.1
  refine ⟨hEmitted.reports ▸ hOnce, ?_, ?_, ?_⟩
  · intro task hTask dueAt hDue hMem
    obtain ⟨old, hOld, hId, hOldDue⟩ := (hEmitted.traced.tasks task hTask dueAt hDue).resolve_left not_false
    rcases hReports hMem with hBefore | rfl
    · have hNotified := h.due old hOld dueAt hOldDue (hId ▸ hBefore)
      rw [hId] at hNotified
      cases signal with
      | taskDueElapsed taskId reported =>
        rw [isNotified_remember]
        split
        · rename_i hSame
          by_contra hOther
          have hOther : dueAt ≠ reported := fun hIs => hOther (decide_eq_true hIs.symm)
          exact hOwn taskId reported rfl old hOld (hId.trans hSame.symm) dueAt hOldDue hOther (hSame ▸ hBefore)
        · exact hNotified
      | _ => exact hNotified
    · rw [isNotified_remember, if_pos rfl]
      exact decide_eq_true rfl
  · intro run hRun hMem
    rcases hReports hMem with hBefore | hIs
    · obtain ⟨old, hOld, hMarks⟩ := (hEmitted.traced.runs run hRun).resolve_left not_false
      exact hMarks.unresponsive (h.unresponsive old hOld (hMarks.id ▸ hBefore))
    · exact (hEmitted.marked run hRun).1 hIs.symm
  · intro run hRun hMem
    rcases hReports hMem with hBefore | hIs
    · obtain ⟨old, hOld, hMarks⟩ := (hEmitted.traced.runs run hRun).resolve_left not_false
      exact hMarks.stale (h.stale old hOld (hMarks.id ▸ hBefore))
    · exact (hEmitted.marked run hRun).2 hIs.symm

/-- Other candidates, none of which was reported. -/
theorem Remembered.ticks (h : watch.Remembered)
    (hOnce : (watch.db.reports ++ pending { watch with due := due, unresponsive := unresponsive, stale := stale }).Nodup) :
    Remembered { watch with due := due, unresponsive := unresponsive, stale := stale } :=
  ⟨hOnce, h.due, h.unresponsive, h.stale⟩

theorem Remembered.restarted (h : watch.Remembered) : watch.restarted.Remembered :=
  h.ticks (h.once.sublist (List.Sublist.append (List.Sublist.refl _) (nil_sublist _)))

theorem Remembered.call {call : Call} (h : watch.Remembered) (hClear : watch.Clear config (.call call)) :
    (watch.next config (.call call)).Remembered := by
  unfold next
  dsimp only
  split
  · exact h
  rename_i hOther
  obtain ⟨later, hBy⟩ := @Server.serve_unreported config call (Bool.not_eq_true _ ▸ hOther) watch.db
  have hSince : recordedSince watch.db (serve config watch.db call) = later.map payload := by
    rw [recordedSince, hBy.log, drop_left]
  have hClear : ∀ event ∈ later.map payload, _ := fun event hMem => hClear event (hSince.symm ▸ hMem)
  refine ⟨?_, ?_, ?_, ?_⟩
  · show ((serve config watch.db call).reports ++ _).Nodup
    rw [hBy.reports]
    exact h.once
  · intro task hTask dueAt hDue hMem
    change _ ∈ (serve config watch.db call).reports at hMem
    rw [hBy.reports] at hMem
    have hNotified : TaskRepo.isNotified watch.notifications task.id dueAt = true := by
      rcases hBy.traced.tasks task hTask dueAt hDue with ⟨event, hEvent, hDates⟩ | ⟨old, hOld, hId, hOldDue⟩
      · exact (hClear event hEvent).1 task.id dueAt hDates hMem
      · exact hId ▸ h.due old hOld dueAt hOldDue (hId ▸ hMem)
    have hStored : (serve config watch.db call).tasks.contains task.id = true :=
      KeyedTable.contains_iff.2 ⟨task, hTask, rfl⟩
    unfold TaskRepo.isNotified at hNotified ⊢
    obtain ⟨row, hRow, hIs⟩ := (Option.any_eq_true _ _).1 hNotified
    refine (Option.any_eq_true _ _).2 ⟨row, ?_, hIs⟩
    have hKey : row.taskId = task.id := key_of_find? hRow
    rw [forget, KeyedTable.find?_filter, hRow]
    simp [hKey, hStored]
  · intro run hRun hMem
    change _ ∈ (serve config watch.db call).reports at hMem
    rw [hBy.reports] at hMem
    rcases hBy.traced.runs run hRun with ⟨event, hEvent, hStarts⟩ | ⟨old, hOld, hMarks⟩
    · exact absurd hMem ((hClear event hEvent).2 run.id hStarts).1
    · exact hMarks.unresponsive (h.unresponsive old hOld (hMarks.id ▸ hMem))
  · intro run hRun hMem
    change _ ∈ (serve config watch.db call).reports at hMem
    rw [hBy.reports] at hMem
    rcases hBy.traced.runs run hRun with ⟨event, hEvent, hStarts⟩ | ⟨old, hOld, hMarks⟩
    · exact absurd hMem ((hClear event hEvent).2 run.id hStarts).2
    · exact hMarks.stale (h.stale old hOld (hMarks.id ▸ hMem))

theorem keys_sublist {Row Out Key : Type} {key : Row → Key} {outKey : Out → Key} {f : Row → Option Out}
    (h : ∀ row out, f row = some out → outKey out = key row) (rows : List Row) :
    ((rows.filterMap f).map outKey).Sublist (rows.map key) := by
  induction rows with
  | nil => exact .slnil
  | cons row rest ih =>
    cases hRow : f row with
    | none =>
      rw [filterMap_cons_none hRow]
      exact ih.cons _
    | some out =>
      rw [filterMap_cons_some hRow, map_cons, map_cons, h row out hRow]
      exact ih.cons_cons _

theorem mem_listDueUnnotified {now : Timestamp} {limit : Nat}
    (h : (id, dueAt) ∈ TaskRepo.listDueUnnotified db notifications now limit) :
    ∃ task ∈ db.tasks, task.id = id ∧ task.dueAt = some dueAt ∧ TaskRepo.isNotified notifications id dueAt = false := by
  have hListed := mem_orderBy.1 (mem_of_mem_take h)
  obtain ⟨task, hTask, hIs⟩ := mem_filterMap.1 hListed
  obtain ⟨due, hDue, hIs⟩ := Option.bind_eq_some_iff.1 hIs
  split at hIs
  · rename_i hCandidate
    cases hIs
    simp only [Bool.and_eq_true, Bool.not_eq_true'] at hCandidate
    exact ⟨task, hTask, rfl, hDue, hCandidate.2⟩
  · cases hIs

theorem nodup_listDueUnnotified (db : Database) (notifications : DueNotifications) (now : Timestamp) (limit : Nat) :
    (TaskRepo.listDueUnnotified db notifications now limit).Nodup := by
  refine List.Nodup.sublist (take_sublist _ _) ((perm_insertionSort _ _).nodup_iff.2 ?_)
  refine List.Nodup.of_map Prod.fst (db.tasks.nodup.sublist (keys_sublist ?_ _))
  intro task out hIs
  obtain ⟨due, _, hIs⟩ := Option.bind_eq_some_iff.1 hIs
  split at hIs
  · cases hIs
    rfl
  · cases hIs

theorem nodup_runIds (db : Database) (p : Run → Bool) : ((db.runs.rows.filter p).map Run.id).Nodup :=
  db.runs.nodup.sublist (filter_sublist.map Run.id)

private def dueReport (candidate : TaskId × Timestamp) : WatchdogSignal := .taskDueElapsed candidate.1 candidate.2

private theorem dueReport_injective : Function.Injective dueReport := by
  rintro ⟨id, dueAt⟩ ⟨other, otherDue⟩ h
  cases h
  rfl

theorem nodup_pending (h : watch.due.candidates.Nodup) (h' : watch.unresponsive.candidates.Nodup)
    (h'' : watch.stale.candidates.Nodup) : watch.pending.Nodup := by
  refine nodup_append.2 ⟨h.map dueReport_injective, nodup_append.2 ⟨?_, ?_, ?_⟩, ?_⟩
  · exact h'.map fun _ _ hIs => WatchdogSignal.runUnresponsive.inj hIs
  · exact h''.map fun _ _ hIs => WatchdogSignal.runStale.inj hIs
  · rintro first hFirst second hSecond rfl
    obtain ⟨_, _, rfl⟩ := mem_map.1 hFirst
    obtain ⟨_, _, hIs⟩ := mem_map.1 hSecond
    cases hIs
  · rintro first hFirst second hSecond rfl
    obtain ⟨_, _, rfl⟩ := mem_map.1 hFirst
    rcases mem_append.1 hSecond with hMem | hMem <;>
      obtain ⟨_, _, hIs⟩ := mem_map.1 hMem <;> cases hIs

theorem candidates_of_pending (h : watch.pending.Nodup) :
    watch.due.candidates.Nodup ∧ watch.unresponsive.candidates.Nodup ∧ watch.stale.candidates.Nodup := by
  obtain ⟨hDue, hRuns, _⟩ := nodup_append.1 h
  obtain ⟨hUnresponsive, hStale, _⟩ := nodup_append.1 hRuns
  exact ⟨.of_map _ hDue, .of_map _ hUnresponsive, .of_map _ hStale⟩

theorem mem_pending : signal ∈ watch.pending ↔ (∃ candidate ∈ watch.due.candidates, dueReport candidate = signal) ∨
    (∃ runId ∈ watch.unresponsive.candidates, .runUnresponsive runId = signal) ∨
    ∃ runId ∈ watch.stale.candidates, .runStale runId = signal := by
  rw [pending, mem_append, mem_append, mem_map, mem_map, mem_map]
  rfl

theorem Remembered.listed (h : watch.Remembered)
    (hDue : due.candidates.Nodup) (hUnresponsive : unresponsive.candidates.Nodup) (hStale : stale.candidates.Nodup)
    (hNew : ∀ other ∈ pending { watch with due := due, unresponsive := unresponsive, stale := stale },
      other ∈ watch.pending ∨ other ∉ watch.db.reports) :
    Remembered { watch with due := due, unresponsive := unresponsive, stale := stale } := by
  obtain ⟨hReports, _, hApart⟩ := nodup_append.1 h.once
  refine h.ticks (nodup_append.2 ⟨hReports, nodup_pending hDue hUnresponsive hStale, ?_⟩)
  rintro first hFirst second hSecond rfl
  rcases hNew first hSecond with hPending | hUnreported
  · exact hApart first hFirst first hPending rfl
  · exact hUnreported hFirst

theorem Remembered.listDue (h : watch.Remembered) (now : Timestamp) : (watch.next config (.listDue now)).Remembered := by
  unfold next
  dsimp only
  split
  · obtain ⟨_, hUnresponsive, hStale⟩ := candidates_of_pending (nodup_append.1 h.once).2.1
    refine h.listed (nodup_listDueUnnotified _ _ _ _) hUnresponsive hStale fun other hOther => ?_
    rcases mem_pending.1 hOther with ⟨⟨id, dueAt⟩, hCandidate, rfl⟩ | hRuns
    · refine .inr fun hReported => ?_
      obtain ⟨task, hTask, rfl, hDue, hNot⟩ := mem_listDueUnnotified hCandidate
      cases hNot.symm.trans (h.due task hTask dueAt hDue hReported)
    · exact .inl (mem_pending.2 (.inr hRuns))
  · exact h

theorem Remembered.listUnresponsive (h : watch.Remembered) (now : Timestamp) (ack : Duration) :
    (watch.next config (.listUnresponsive now ack)).Remembered := by
  unfold next
  dsimp only
  split
  · obtain ⟨hDue, _, hStale⟩ := candidates_of_pending (nodup_append.1 h.once).2.1
    refine h.listed hDue (nodup_runIds _ _) hStale fun other hOther => ?_
    rcases mem_pending.1 hOther with hTasks | ⟨runId, hCandidate, rfl⟩ | hRuns
    · exact .inl (mem_pending.2 (.inl hTasks))
    · refine .inr fun hReported => ?_
      obtain ⟨run, hRun, rfl⟩ := mem_map.1 hCandidate
      obtain ⟨hStored, hUnmarked⟩ := mem_filter.1 hRun
      simp only [Bool.and_eq_true, Option.isNone_iff_eq_none] at hUnmarked
      have hMarked := h.unresponsive run hStored hReported
      rw [hUnmarked.1.1.2] at hMarked
      cases hMarked
    · exact .inl (mem_pending.2 (.inr (.inr hRuns)))
  · exact h

theorem Remembered.listStale (h : watch.Remembered) (now : Timestamp) (idle : Duration) :
    (watch.next config (.listStale now idle)).Remembered := by
  unfold next
  dsimp only
  split
  · obtain ⟨hDue, hUnresponsive, _⟩ := candidates_of_pending (nodup_append.1 h.once).2.1
    refine h.listed hDue hUnresponsive (nodup_runIds _ _) fun other hOther => ?_
    rcases mem_pending.1 hOther with hTasks | hRuns | ⟨runId, hCandidate, rfl⟩
    · exact .inl (mem_pending.2 (.inl hTasks))
    · exact .inl (mem_pending.2 (.inr (.inl hRuns)))
    · refine .inr fun hReported => ?_
      obtain ⟨run, hRun, rfl⟩ := mem_map.1 hCandidate
      obtain ⟨hStored, hUnmarked⟩ := mem_filter.1 hRun
      simp only [Bool.and_eq_true, Option.isNone_iff_eq_none] at hUnmarked
      have hMarked := h.stale run hStored hReported
      rw [hUnmarked.1.2] at hMarked
      cases hMarked
  · exact h

theorem once_reported {before after : List WatchdogSignal} {later : Watch} (h : (watch.db.reports ++ watch.pending).Nodup)
    (hPending : watch.pending = before ++ signal :: after) (hLater : later.pending.Sublist (before ++ after)) :
    ((watch.db.reports ++ [signal]) ++ later.pending).Nodup := by
  rw [hPending] at h
  have hMoved : (watch.db.reports ++ (before ++ signal :: after)).Perm ((watch.db.reports ++ [signal]) ++ (before ++ after)) := by
    rw [append_assoc, singleton_append]
    exact perm_middle.append_left _
  exact (hMoved.nodup_iff.1 h).sublist (hLater.append_left _)

theorem left_sublist {Candidate : Type} (goesOn : Bool) (rest : List Candidate) (f : Candidate → WatchdogSignal) :
    ((if goesOn then rest else []).map f).Sublist (rest.map f) := by
  cases goesOn with
  | false => exact nil_sublist _
  | true => exact List.Sublist.refl _

theorem Remembered.reportDue {env : Env} (h : watch.Remembered)
    (hClear : watch.Clear config (.reportDue env stops)) : (watch.next config (.reportDue env stops)).Remembered := by
  unfold next
  dsimp only
  split
  · exact h
  rename_i taskId dueAt rest hCandidates
  obtain ⟨hStops, hOwn⟩ := hClear taskId dueAt rest hCandidates
  have hPending : watch.pending = [] ++ .taskDueElapsed taskId dueAt :: (rest.map dueReport ++
      (watch.unresponsive.candidates.map .runUnresponsive ++ watch.stale.candidates.map .runStale)) := by
    rw [pending, hCandidates]
    rfl
  refine @reportOne_cases watch (.taskDueElapsed taskId dueAt) _ _ _ _ (fun _ => rfl) Remembered hStops ?_ ?_
  · refine h.ticks (h.once.sublist (List.Sublist.append_left ?_ _))
    rw [hPending]
    exact ((nil_sublist _).append (List.Sublist.refl _)).cons _
  · intro db' goesOn hEmitted
    refine h.emitted watch.due.now hEmitted (once_reported h.once hPending ((left_sublist goesOn rest dueReport).append_right _)) ?_
    intro id due hIs task hTask hId other hDue hOther
    cases hIs
    exact hOwn task hTask hId other hDue hOther

theorem Remembered.reportUnresponsive {env : Env} (h : watch.Remembered)
    (hClear : watch.Clear config (.reportUnresponsive env stops)) :
    (watch.next config (.reportUnresponsive env stops)).Remembered := by
  unfold next
  dsimp only
  split
  · exact h
  rename_i runId rest hCandidates
  have hStops := hClear (by rw [hCandidates]; exact cons_ne_nil _ _)
  have hPending : watch.pending = watch.due.candidates.map dueReport ++ .runUnresponsive runId ::
      (rest.map WatchdogSignal.runUnresponsive ++ watch.stale.candidates.map WatchdogSignal.runStale) := by
    rw [pending, hCandidates]
    rfl
  have hLeft : ∀ goesOn : Bool, (watch.due.candidates.map dueReport ++ ((if goesOn then rest else []).map WatchdogSignal.runUnresponsive ++
      watch.stale.candidates.map WatchdogSignal.runStale)).Sublist (watch.due.candidates.map dueReport ++
        (rest.map WatchdogSignal.runUnresponsive ++ watch.stale.candidates.map WatchdogSignal.runStale)) :=
    fun goesOn => List.Sublist.append_left ((left_sublist goesOn rest .runUnresponsive).append_right _) _
  refine @reportOne_cases watch (.runUnresponsive runId) _ _ _ _ (fun _ => rfl) Remembered hStops ?_ ?_
  · refine h.ticks (h.once.sublist (List.Sublist.append_left ?_ _))
    rw [hPending]
    exact (hLeft false).trans (List.Sublist.append_left (sublist_cons_self _ _) _)
  · intro db' goesOn hEmitted
    exact h.emitted watch.unresponsive.now hEmitted (once_reported h.once hPending (hLeft goesOn)) fun _ _ hIs => by cases hIs

theorem Remembered.reportStale {env : Env} (h : watch.Remembered)
    (hClear : watch.Clear config (.reportStale env stops)) :
    (watch.next config (.reportStale env stops)).Remembered := by
  unfold next
  dsimp only
  split
  · exact h
  rename_i runId rest hCandidates
  have hStops := hClear (by rw [hCandidates]; exact cons_ne_nil _ _)
  have hPending : watch.pending = (watch.due.candidates.map dueReport ++
      watch.unresponsive.candidates.map WatchdogSignal.runUnresponsive) ++ .runStale runId :: rest.map WatchdogSignal.runStale := by
    rw [pending, hCandidates, append_assoc]
    rfl
  have hLeft : ∀ goesOn : Bool, (watch.due.candidates.map dueReport ++ (watch.unresponsive.candidates.map WatchdogSignal.runUnresponsive ++
      (if goesOn then rest else []).map WatchdogSignal.runStale)).Sublist ((watch.due.candidates.map dueReport ++
        watch.unresponsive.candidates.map WatchdogSignal.runUnresponsive) ++ rest.map WatchdogSignal.runStale) := by
    intro goesOn
    rw [append_assoc]
    exact List.Sublist.append_left (List.Sublist.append_left (left_sublist goesOn rest .runStale) _) _
  refine @reportOne_cases watch (.runStale runId) _ _ _ _ (fun _ => rfl) Remembered hStops ?_ ?_
  · refine h.ticks (h.once.sublist (List.Sublist.append_left ?_ _))
    rw [hPending]
    exact (hLeft false).trans (List.Sublist.append_left (sublist_cons_self _ _) _)
  · intro db' goesOn hEmitted
    exact h.emitted watch.stale.now hEmitted (once_reported h.once hPending (hLeft goesOn)) fun _ _ hIs => by cases hIs

theorem Remembered.next (h : watch.Remembered) {step : WatchStep} (hClear : watch.Clear config step) :
    (watch.next config step).Remembered := by
  cases step with
  | call call => exact h.call hClear
  | listDue now => exact h.listDue now
  | reportDue env stops => exact h.reportDue hClear
  | listUnresponsive now ack => exact h.listUnresponsive now ack
  | reportUnresponsive env stops => exact h.reportUnresponsive hClear
  | listStale now idle => exact h.listStale now idle
  | reportStale env stops => exact h.reportStale hClear
  | stop => exact h.restarted

theorem remembered_start : start.Remembered :=
  ⟨nodup_nil, fun task hTask => absurd hTask (not_mem_empty task),
    fun run hRun => absurd hRun (not_mem_empty run), fun run hRun => absurd hRun (not_mem_empty run)⟩

def AllClear (config : Config) : Watch → List WatchStep → Prop
  | _, [] => True
  | watch, step :: rest => watch.Clear config step ∧ AllClear config (watch.next config step) rest

theorem remembered_run {steps : List WatchStep} (h : watch.Remembered) (hClear : AllClear config watch steps) :
    ∀ earlier later, steps = earlier ++ later → (earlier.foldl (Watch.next config) watch).Remembered := by
  induction steps generalizing watch with
  | nil =>
    intro earlier later hIs
    obtain ⟨rfl, rfl⟩ := append_eq_nil_iff.1 hIs.symm
    exact h
  | cons step rest ih =>
    intro earlier later hIs
    cases earlier with
    | nil => exact h
    | cons first earlier =>
      obtain ⟨rfl, hRest⟩ := List.cons.inj hIs
      exact ih (h.next hClear.1) hClear.2 earlier later hRest

/-- In every state of a run whose steps are clear no deadline of a task was reported twice,
and no run was reported unresponsive or stale twice. -/
theorem reports_once (config : Config) (steps : List WatchStep) (h : AllClear config start steps) :
    ∀ earlier later, steps = earlier ++ later → (run config earlier).db.reports.Nodup := by
  intro earlier later hIs
  exact (nodup_append.1 (remembered_run remembered_start h earlier later hIs).once).1

private def commanded (n : Nat) (command : TaskCommand) : WatchStep :=
  .call (.command (nthEnv n) .internal (.task command) .anyUser)

private def overdue : WatchStep := commanded 0 (.createTask { NewTask.new "task" with id := some ⟨7⟩, dueAt := some 1 })

private def dueTick (n : Nat) (stops : Bool) : List WatchStep := [.listDue 5, .reportDue (nthEnv n) stops]

private def movedTo (n : Nat) (dueAt : Timestamp) : WatchStep :=
  commanded n (.updateTask ⟨7⟩ { TaskPatch.none with dueAt := some (some dueAt) })

private theorem clear_first {step : WatchStep} (hNone : watch.db.reports = []) (hStops : ∀ env, step ≠ .reportDue env true ∧
    step ≠ .reportUnresponsive env true ∧ step ≠ .reportStale env true) : watch.Clear config step := by
  have hNot : ∀ signal, signal ∉ watch.db.reports := fun signal hMem => not_mem_nil (hNone ▸ hMem)
  cases step with
  | call call => exact fun event _ => ⟨fun _ _ _ hMem => absurd hMem (hNot _), fun _ _ => ⟨hNot _, hNot _⟩⟩
  | reportDue env stops =>
    cases stops with
    | true => exact absurd rfl (hStops env).1
    | false => exact fun _ _ _ _ => ⟨rfl, fun _ _ _ _ _ _ => hNot _⟩
  | reportUnresponsive env stops =>
    cases stops with
    | true => exact absurd rfl (hStops env).2.1
    | false => exact fun _ => rfl
  | reportStale env stops =>
    cases stops with
    | true => exact absurd rfl (hStops env).2.2
    | false => exact fun _ => rfl
  | _ => exact trivial

theorem reports_once_overdue : AllClear Server.engineConfig start (overdue :: dueTick 1 false) ∧
    (run Server.engineConfig (overdue :: dueTick 1 false)).db.reports = [.taskDueElapsed ⟨7⟩ 1] ∧
    (run Server.engineConfig (overdue :: dueTick 1 false)).db.reports.Nodup := by
  have hStops : ∀ {step : WatchStep}, step ∈ overdue :: dueTick 1 false → ∀ env, step ≠ .reportDue env true ∧
      step ≠ .reportUnresponsive env true ∧ step ≠ .reportStale env true := by
    intro step hMem env
    rcases mem_cons.1 hMem with rfl | hMem
    · exact ⟨nofun, nofun, nofun⟩
    · rcases mem_cons.1 hMem with rfl | hMem
      · exact ⟨nofun, nofun, nofun⟩
      · cases mem_singleton.1 hMem
        exact ⟨nofun, nofun, nofun⟩
  have hClear : AllClear Server.engineConfig start (overdue :: dueTick 1 false) := by
    refine ⟨clear_first rfl (hStops mem_cons_self), clear_first ?_ (hStops (by simp [dueTick])),
      clear_first ?_ (hStops (by simp [dueTick])), trivial⟩
    · exact length_eq_zero_iff.1 (by decide +kernel)
    · exact length_eq_zero_iff.1 (by decide +kernel)
  exact ⟨hClear, by decide +kernel, reports_once Server.engineConfig _ hClear _ [] (append_nil _).symm⟩

/-- A deadline that moves away and back is reported again, and so is one whose report was
appended when the server stopped. -/
theorem deadline_reported_twice :
    ¬(run Server.engineConfig (overdue :: dueTick 1 false ++ movedTo 2 2 :: dueTick 3 false ++
      movedTo 4 1 :: dueTick 5 false)).db.reports.Nodup ∧
    ¬(run Server.engineConfig (overdue :: dueTick 1 true ++ dueTick 2 false)).db.reports.Nodup := by
  constructor
  · decide +kernel
  · decide +kernel

end Watch
end Daruma
