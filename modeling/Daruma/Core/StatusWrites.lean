import Daruma.Core.Persisting
import Daruma.Storage.TaskSteps

/-! Which calls change the status of a task: only the events of an accepted batch
do, and each of them says so. -/
namespace Daruma

open Stateful List

def Event.WritesStatus (event : Event) (id : TaskId) (status : Status) : Prop :=
  match event with
  | .task event => event.WritesStatus id status
  | _ => False

def Database.statusOf (db : Database) (id : TaskId) : Option Status :=
  (db.tasks.find? id).map Task.status

def StatusesFrom (written : TaskId → Status → Prop) (before after : Database) : Prop :=
  ∀ id status, after.statusOf id = some status → before.statusOf id = some status ∨ written id status

namespace StatusesFrom

variable {written : TaskId → Status → Prop}

variable {before after : Database}

theorem of_tasks_eq (h : after.tasks = before.tasks) : StatusesFrom written before after := by
  intro id status hStatus
  rw [Database.statusOf, h] at hStatus
  exact .inl hStatus

theorem trans {first second third : Database} (h : StatusesFrom written first second)
    (h' : StatusesFrom written second third) : StatusesFrom written first third := by
  intro id status hStatus
  rcases h' id status hStatus with hKept | hWritten
  · exact h id status hKept
  · exact .inr hWritten

theorem mono {wider : TaskId → Status → Prop}
    (h : StatusesFrom written before after) (hWider : ∀ id status, written id status → wider id status) :
    StatusesFrom wider before after :=
  fun id status hStatus => (h id status hStatus).imp_right (hWider id status)

end StatusesFrom

namespace PlanRepo

variable {db : Database} {env : Env} {envelope : EventEnvelope}

theorem reorder_tasks (planId : PlanId) (position : Nat) (order : List TaskId) (db : Database) :
    (reorder db planId position order).tasks = db.tasks := by
  induction order generalizing db position with
  | nil => rfl
  | cons taskId rest ih => exact ih (position + 1) _

theorem applyPatch_tasks (planId : PlanId) (patch : PlanPatch) :
    (applyPatch db env envelope planId patch).tasks = db.tasks := by
  unfold applyPatch
  split
  · rfl
  · dsimp only
    split
    · split <;> rfl
    · rfl

theorem deletePlan_tasks (planId : PlanId) (instant : Timestamp) :
    (deletePlan db planId instant).tasks = db.tasks := by
  unfold deletePlan
  dsimp only
  split <;> rfl

theorem upsertSource_tasks (source : SourceNode) : (upsertSource db source).tasks = db.tasks := by
  unfold upsertSource
  split <;> rfl

variable {id : TaskId} {row : Task}

theorem applyPlanEvent_tasks {event : PlanEvent}
    (hOther : ∀ planId taskId position dependsOn, event ≠ .planTaskAdded planId taskId position dependsOn) :
    (applyPlanEvent db env envelope event).tasks = db.tasks := by
  cases event with
  | planTaskAdded planId taskId position dependsOn => exact absurd rfl (hOther _ _ _ _)
  | planUpdated planId patch => exact applyPatch_tasks planId patch
  | planReordered planId order => exact reorder_tasks planId 0 order db
  | planDeleted planId instant => exact deletePlan_tasks planId instant
  | sourceUpserted source => exact upsertSource_tasks source
  | _ => rfl

/-- An event leaves the tasks as they were, or gives a new member the project of its plan. -/
theorem applyEvent_tasks_rule {P : Tasks → Prop} (hSame : P db.tasks)
    (hJoins : ∀ planId taskId position dependsOn, envelope.payload = .plan (.planTaskAdded planId taskId position dependsOn) →
      (memberProjects { db with planTasks := db.planTasks.insertOrReplace ⟨planId, taskId, position, dependsOn⟩ } taskId).length = 1 →
      P (db.tasks.modify taskId fun task =>
        { task with projectId := task.projectId.or ((db.plans.find? planId).map Plan.projectId) })) :
    P (applyEvent db env envelope).tasks := by
  unfold applyEvent
  split
  · rename_i event hPayload
    by_cases hAdded : ∃ planId taskId position dependsOn, event = .planTaskAdded planId taskId position dependsOn
    · obtain ⟨planId, taskId, position, dependsOn, rfl⟩ := hAdded
      change P (addTask db planId taskId position dependsOn).tasks
      unfold addTask
      dsimp only
      split
      · exact hJoins _ _ _ _ hPayload ‹_›
      · exact hSame
    · rw [applyPlanEvent_tasks fun _ _ _ _ hEvent => hAdded ⟨_, _, _, _, hEvent⟩]
      exact hSame
  · exact hSame

/-- A task can get a project, and nothing else. -/
theorem applyEvent_taskRow : (applyEvent db env envelope).tasks.find? id = some row →
    ∃ old projectId, db.tasks.find? id = some old ∧ row = { old with projectId := projectId } := by
  refine applyEvent_tasks_rule (P := fun tasks => tasks.find? id = some row → _) (fun h => ⟨row, row.projectId, h, rfl⟩)
    fun _ _ _ _ _ _ h => ?_
  rw [KeyedTable.find?_modify] at h
  · split at h
    · obtain ⟨old, hOld, rfl⟩ := Option.map_eq_some_iff.mp h
      exact ⟨old, _, hOld, rfl⟩
    · exact ⟨row, row.projectId, h, rfl⟩
  · exact fun _ => rfl

end PlanRepo

namespace Projections

variable {env : Env} {envelope : EventEnvelope} {db db' : Database}

theorem tasks_statuses {written : Tasks} (h : TaskRepo.applyEvent db.tasks env envelope = .ok written) :
    StatusesFrom envelope.payload.WritesStatus db { db with tasks := written } := by
  intro id status hStatus
  obtain ⟨row, hRow, rfl⟩ := Option.map_eq_some_iff.mp hStatus
  have hId : row.id = id := KeyedTable.key_of_find? hRow
  subst hId
  unfold TaskRepo.applyEvent at h
  split at h
  · rename_i event hPayload
    rw [hPayload]
    cases TaskRepo.applyTaskEvent_row h hRow with
    | @rewritten old hFound _ hWritten =>
      rcases hWritten with hKept | hSets
      · exact .inl (by rw [Database.statusOf, hFound, Option.map_some, hKept])
      · exact .inr (.inl hSets)
    | @inserted new hNew hInserted =>
      exact .inr (.inr ⟨new, hNew, hInserted.id, hInserted.status.symm⟩)
  · cases h
    exact .inl (by rw [Database.statusOf, hRow, Option.map_some])

theorem projectors_statuses {step : Database → Result Database} (hStep : step ∈ projectors env envelope)
    (h : step db = .ok db') : StatusesFrom envelope.payload.WritesStatus db db' := by
  obtain ⟨_, hWrote⟩ := exists_wrote hStep h
  cases hWrote with
  | tasks hApplied => exact tasks_statuses hApplied
  | plans hApplied =>
    rw [← hApplied]
    intro id status hStatus
    obtain ⟨row, hRow, rfl⟩ := Option.map_eq_some_iff.mp hStatus
    obtain ⟨old, projectId, hOld, rfl⟩ := PlanRepo.applyEvent_taskRow hRow
    exact .inl (by rw [Database.statusOf, hOld, Option.map_some])
  | _ => exact .of_tasks_eq rfl

variable {outcome : Except CoreError Unit}

theorem applyEvents_statuses {envelopes : List EventEnvelope}
    (h : applyEvents env envelopes db = (outcome, db')) :
    StatusesFrom (fun id status => ∃ envelope ∈ envelopes, envelope.payload.WritesStatus id status) db db' := by
  refine inTurn_rel (fun _ => .of_tasks_eq rfl) (fun _ _ _ => .trans) ?_ h
  intro step hStep before after hRun
  obtain ⟨envelope, hMem, hProjector⟩ := mem_flatMap.mp hStep
  exact (projectors_statuses hProjector hRun).mono fun id status hWrites => ⟨envelope, hMem, hWrites⟩

end Projections

def Event.IsLine (event : Event) : Prop :=
  ∃ documentId line instant, event = .document (.documentContentAppended documentId line instant)

/-- The log has such events more, some of them went into the documents, the feed may have
changed, and nothing else has. -/
def WritesLog (logged : Event → Prop) (before after : Database) : Prop :=
  ∃ events latestSeq activity documentVersions, ∃ later projected : List EventEnvelope, after = { before with
      events := events, latestSeq := latestSeq, activity := activity, documentVersions := documentVersions,
      documents := projected.foldl DocumentRepo.applyEvent before.documents } ∧
    events.rows = before.events.rows ++ later ∧ (∀ envelope ∈ later, logged envelope.payload) ∧
    ∀ envelope ∈ projected, logged envelope.payload

namespace WritesLog

variable {logged wider : Event → Prop} {first second third : Database}

theorem unlogged (h : second = { first with activity := second.activity }) : WritesLog logged first second :=
  ⟨_, _, _, _, [], [], h, (append_nil _).symm, forall_mem_nil _, forall_mem_nil _⟩

theorem trans (h : WritesLog logged first second) (h' : WritesLog logged second third) : WritesLog logged first third := by
  obtain ⟨_, _, _, _, later, taken, rfl, hLog, hLater, hTaken⟩ := h
  obtain ⟨_, _, _, _, last, rest, rfl, hLog', hLast, hRest⟩ := h'
  exact ⟨_, _, _, _, later ++ last, taken ++ rest, by rw [foldl_append], by rw [hLog', hLog, append_assoc],
    forall_mem_append.mpr ⟨hLater, hLast⟩, forall_mem_append.mpr ⟨hTaken, hRest⟩⟩

theorem mono (h : WritesLog logged first second) (hWider : ∀ event, logged event → wider event) :
    WritesLog wider first second := by
  obtain ⟨_, _, _, _, _, _, hFrame, hLog, hLater, hTaken⟩ := h
  exact ⟨_, _, _, _, _, _, hFrame, hLog, fun envelope hMem => hWider _ (hLater envelope hMem),
    fun envelope hMem => hWider _ (hTaken envelope hMem)⟩

theorem projected {envelope : EventEnvelope} (hLogged : logged envelope.payload) (h : second = { first with
      documents := DocumentRepo.applyEvent first.documents envelope, documentVersions := second.documentVersions }) :
    WritesLog logged first second :=
  ⟨_, _, _, _, [], [envelope], h, (append_nil _).symm, forall_mem_nil _, forall_mem_singleton.mpr hLogged⟩

end WritesLog

namespace AutoAppend

variable {config : Config} {env : Env} {db : Database}

variable {event : Event} {actor : Actor}

theorem logEntry_event {envelope : EventEnvelope} (h : logEntry config env db envelope = some event) :
    ∃ documentId line, event = .document (.documentContentAppended documentId line envelope.occurredAt) := by
  obtain ⟨⟨projectId, kind, line⟩, _, h⟩ := Option.bind_eq_some_iff.mp h
  dsimp only at h
  split at h
  · obtain ⟨doc, _, h⟩ := Option.bind_eq_some_iff.mp h
    cases h
    exact ⟨_, _, rfl⟩
  · cases h

theorem autoAppendLogs_rel {rel : Database → Database → Prop} (hRefl : ∀ db, rel db db)
    (hTrans : ∀ first second third, rel first second → rel second third → rel first third)
    (hLine : ∀ env db documentId line instant, rel db (persistSignalEvent env .anyUser
      (.document (.documentContentAppended documentId line instant)) db).2)
    (envelopes : List EventEnvelope) (db : Database) : rel db (autoAppendLogs config env db envelopes) := by
  induction envelopes generalizing db with
  | nil => exact hRefl db
  | cons envelope rest ih =>
    unfold autoAppendLogs
    refine hTrans _ _ _ ?_ (ih _)
    split
    · exact hRefl db
    · rename_i event hEntry
      obtain ⟨documentId, line, hEvent⟩ := logEntry_event hEntry
      rw [hEvent]
      exact hLine _ db documentId line _

/-- A signal that cannot be appended changes nothing; one that can is appended
and projected. -/
theorem persistSignalEvent_cases {db' : Database} (h : persistSignalEvent env actor event db = (outcome, db')) :
    db' = db ∨ ∃ persisted appended,
      appendBatch db [EventEnvelope.new (env.fresh 0) env.now actor event] = .ok (persisted, appended) ∧
        Projections.applyEvents (env.part 1) persisted appended = (outcome, db') := by
  replace h := get_bind.mp h
  rcases bind_cases h with ⟨_, _, hAppend⟩ | ⟨⟨persisted, appended⟩, middle, hAppend, h⟩
  · exact .inl (lift_eq.mp hAppend).2.symm
  obtain ⟨hAppended, rfl⟩ := lift_eq.mp hAppend
  replace h := set_bind.mp h
  exact .inr ⟨persisted, appended, hAppended, h⟩

theorem persistSignalEvent_rule {post : Database → Prop} (hBefore : post db)
    (hProjected : ∀ {part persisted events latestSeq outcome after},
      (∀ recorded ∈ persisted.map EventEnvelope.payload, recorded = event) →
      Projections.applyEvents part persisted { db with events := events, latestSeq := latestSeq } = (outcome, after) →
      post after) : post (persistSignalEvent env actor event db).2 := by
  cases hRun : persistSignalEvent env actor event db with
  | mk outcome after =>
  rcases persistSignalEvent_cases hRun with rfl | ⟨persisted, appended, hAppend, hApplied⟩
  · exact hBefore
  · obtain ⟨hPayloads, _, _, _, rfl⟩ := appendBatch_ok hAppend
    rw [map_singleton] at hPayloads
    exact hProjected (fun recorded hMem => mem_singleton.mp (hPayloads ▸ hMem)) hApplied

theorem persistSignalEvent_rel {rel : Database → Database → Prop} (hRefl : ∀ db, rel db db)
    (hTrans : ∀ first second third, rel first second → rel second third → rel first third)
    (hLog : ∀ before after, WritesLog (· = event) before after → rel before after)
    (hProjects : ∀ env envelope step before after, envelope.payload = event → step ∈ Projections.projectors env envelope →
      step before = .ok after → rel before after) : rel db (persistSignalEvent env actor event db).2 := by
  cases hRun : persistSignalEvent env actor event db with
  | mk outcome after =>
  rcases persistSignalEvent_cases hRun with rfl | ⟨persisted, appended, hAppend, hApplied⟩
  · exact hRefl _
  · obtain ⟨hPayloads, hRows, events, latestSeq, rfl⟩ := appendBatch_ok hAppend
    rw [map_singleton] at hPayloads
    have hIs : ∀ envelope ∈ persisted, envelope.payload = event := fun envelope hMem =>
      mem_singleton.mp (hPayloads ▸ mem_map_of_mem hMem)
    refine hTrans _ _ _ (hLog _ _ ⟨_, _, _, _, persisted, [], rfl, hRows, hIs, forall_mem_nil _⟩) (inTurn_rel hRefl hTrans ?_ hApplied)
    intro step hStep before after hTaken
    obtain ⟨envelope, hMem, hProjector⟩ := mem_flatMap.mp hStep
    exact hProjects _ envelope step before after (hIs envelope hMem) hProjector hTaken

theorem line_projected {envelope : EventEnvelope} {logged : Event → Prop} {step : Database → Result Database}
    {before after : Database} (h : envelope.payload.IsLine) (hLogged : logged envelope.payload) (hStep : step ∈ Projections.projectors env envelope) (hTaken : step before = .ok after) :
    WritesLog logged before after := by
  obtain ⟨documentId, line, instant, hPayload⟩ := h
  simp only [Projections.projectors, mem_cons, not_mem_nil, or_false] at hStep
  rcases hStep with rfl | rfl | rfl | rfl | rfl | rfl | rfl | rfl | rfl | rfl | rfl | rfl | rfl
  all_goals
    simp only [Projections.tasks, TaskRepo.applyEvent, Projections.records, ProjectRepo.applyEvent,
      CommentRepo.applyEvent, PlanRepo.applyEvent, RunRepo.applyEvent, RunNoteRepo.applyEvent, SessionRepo.applyEvent,
      AgentClaimRepo.applyEvent, WorkLeaseRepo.applyEvent, Projections.documents, ProjectSettingsRepo.applyEvent,
      WorkUnitRepo.applyEvent, Projections.handoffs, HandoffRepo.applyEvent, Projections.rules, RuleRepo.applyEvent,
      EvidenceRepo.applyEvent, ArtifactRepo.applyEvent, hPayload] at hTaken
    cases hTaken
    first
    | exact .unlogged rfl
    | exact .projected hLogged rfl

theorem autoAppendLogs_lines (envelopes : List EventEnvelope) (db : Database) :
    WritesLog Event.IsLine db (autoAppendLogs config env db envelopes) := by
  refine autoAppendLogs_rel (fun _ => .unlogged rfl) (fun _ _ _ => .trans) ?_ envelopes db
  intro env db documentId line instant
  have hLine : Event.IsLine (.document (.documentContentAppended documentId line instant)) := ⟨documentId, line, instant, rfl⟩
  refine persistSignalEvent_rel (fun _ => .unlogged rfl) (fun _ _ _ => .trans) (fun _ _ h => h.mono fun _ hIs => hIs ▸ hLine) ?_
  exact fun env envelope step before after hIs => line_projected (hIs ▸ hLine) (hIs ▸ hLine)

def LogGrows (before after : Database) : Prop := ∃ later, after.events.rows = before.events.rows ++ later

theorem LogGrows.refl (db : Database) : LogGrows db db := ⟨[], (append_nil _).symm⟩

theorem LogGrows.trans {first second third : Database} (h : LogGrows first second) (h' : LogGrows second third) :
    LogGrows first third := by
  obtain ⟨later, hLog⟩ := h
  obtain ⟨last, hLog'⟩ := h'
  exact ⟨later ++ last, by rw [hLog', hLog, append_assoc]⟩

end AutoAppend

theorem WritesLog.grows {logged : Event → Prop} {before after : Database} (h : WritesLog logged before after) :
    AutoAppend.LogGrows before after := by
  obtain ⟨_, _, _, _, later, _, rfl, hLog, _⟩ := h
  exact ⟨later, hLog⟩

namespace Handler

variable {config : Config} {env : Env} {caller : Caller} {command : Command} {claimed : Actor} {db db' : Database}

variable {status : Status}

variable {id : TaskId}

theorem writesStatus_relink {f : Event → Event} (hRelinking : Relinking f) {event : Event} : (f event).WritesStatus id status ↔ event.WritesStatus id status := by
  rcases hRelinking with rfl | ⟨origin, rfl⟩
  · rfl
  · unfold relinkEvent
    split
    · simp [Event.WritesStatus, TaskEvent.WritesStatus, TaskEvent.SetsStatus, TaskEvent.CreatesWith,
        TaskEvent.created]
    · rfl

variable {event : Event}

theorem not_writesStatus_of_isAudit (h : event.isAudit = true) : ¬event.WritesStatus id status := by
  cases event with
  | audit event => exact fun hWrites => hWrites
  | _ => cases h

theorem not_writesStatus_of_isRelease (h : IsRelease event) : ¬event.WritesStatus id status := by
  obtain ⟨agentId, taskId, claimId, rfl⟩ := h
  exact fun hWrites => hWrites

/-- What a command leaves behind, where it logs nothing, and where its batch is projected,
up to a refusal, and reported in the logs. -/
theorem handle_rule {post : Database → Prop}
    (hUnlogged : ∀ {relations after}, Audited { db with relations := relations } after → post after)
    (hProjected : ∀ {batch relations trail persisted appended projection applied},
      Accepted config env caller command claimed db batch relations trail persisted appended →
      Projections.applyEvents (env.part 4) persisted appended = (projection, applied) → post applied)
    (hLogged : ∀ {applied after}, WritesLog Event.IsLine applied after → post applied → post after) :
    post (handleWithRunOwner config env caller command claimed db).2 := by
  cases hRun : handleWithRunOwner config env caller command claimed db with
  | mk outcome after =>
  cases handled hRun with
  | unlogged _ _ hAudited => exact hUnlogged hAudited
  | stranded hAccepted hApplied => exact hProjected hAccepted hApplied
  | projected hAccepted hApplied _ =>
    exact hLogged (AutoAppend.autoAppendLogs_lines _ _) (hProjected hAccepted hApplied)

theorem status_of_handle {outcome : Except CoreError DispatchOutcome}
    (h : handleWithRunOwner config env caller command claimed db = (outcome, db'))
    (hAfter : db'.statusOf id = some status) (hBefore : db.statusOf id ≠ some status) :
    ∃ batch relations trail persisted appended,
      Accepted config env caller command claimed db batch relations trail persisted appended ∧
        (∃ later, db'.events.rows = db.events.rows ++ persisted ++ later) ∧
        ∃ event ∈ batch, event.WritesStatus id status := by
  have hBatch : ∀ {batch relations trail persisted appended applied outcome},
      Accepted config env caller command claimed db batch relations trail persisted appended →
      Projections.applyEvents (env.part 4) persisted appended = (outcome, applied) →
      applied.statusOf id = some status → ∃ event ∈ batch, event.WritesStatus id status := by
    intro batch relations trail persisted appended applied outcome hAccepted hApplied hStatus
    obtain ⟨events, latestSeq, runs, agentClaims, owners, hFrame⟩ := hAccepted.frame
    have hFrom := StatusesFrom.trans (.of_tasks_eq (by rw [hFrame])) (Projections.applyEvents_statuses hApplied)
    obtain ⟨envelope, hMem, hWrites⟩ := (hFrom id status hStatus).resolve_left hBefore
    obtain ⟨f, audit, metrics, releases, hRelinking, hAudit, hMetrics, hReleases, hPayloads⟩ :=
      hAccepted.payloads
    have hPayload : envelope.payload ∈ audit ++ batch.map f ++ metrics ++ releases :=
      hPayloads ▸ mem_map_of_mem hMem
    simp only [mem_append, mem_map] at hPayload
    rcases hPayload with ((hIn | ⟨event, hEvent, hSame⟩) | hIn) | hIn
    · exact absurd hWrites (not_writesStatus_of_isAudit (hAudit _ hIn))
    · exact ⟨event, hEvent, (writesStatus_relink hRelinking).mp (hSame ▸ hWrites)⟩
    · exact absurd hWrites (not_writesStatus_of_isAudit (hMetrics _ hIn))
    · exact absurd hWrites (not_writesStatus_of_isRelease (hReleases _ hIn))
  cases handled h with
  | unlogged _ _ hAudited =>
    obtain ⟨_, _, _, _, _, _, rfl⟩ := hAudited
    exact absurd hAfter hBefore
  | stranded hAccepted hApplied =>
    refine ⟨_, _, _, _, _, hAccepted, ⟨[], ?_⟩, hBatch hAccepted hApplied hAfter⟩
    rw [(Projections.applyEvents_sameLog hApplied).1, hAccepted.log, append_nil]
  | projected hAccepted hApplied _ =>
    rename_i persisted _ applied _
    obtain ⟨_, _, _, _, later, _, hFrame, hLater, _⟩ := @AutoAppend.autoAppendLogs_lines config (env.part 5) persisted applied
    rw [hFrame] at hAfter ⊢
    refine ⟨_, _, _, _, _, hAccepted, ⟨later, ?_⟩, hBatch hAccepted hApplied hAfter⟩
    exact hLater.trans (by rw [(Projections.applyEvents_sameLog hApplied).1, hAccepted.log])

end Handler
end Daruma
