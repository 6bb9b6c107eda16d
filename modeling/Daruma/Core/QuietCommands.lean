import Daruma.Core.CanStart

/-! Commands whose batch asks for no check, takes no plan along and leaves no line in
a log: with new ids they are accepted, and their projections are all that they write. -/
namespace Daruma

open List KeyedTable Stateful

/-- An event about the fields of a task or a document, and no transition. -/
def Event.IsQuiet : Event → Prop
  | .task (.taskUpdated ..) | .plan (.planTaskAmended ..) | .plan (.planModifiedByHuman ..) => True
  | .document (.documentRenamed ..) | .document (.documentContentReplaced ..) => True
  | _ => False

namespace Event.IsQuiet

variable {event : Event} {events : List Event}

@[elab_as_elim]
theorem elim {motive : Event → Prop} (h : event.IsQuiet)
    (updated : ∀ taskId patch, motive (.task (.taskUpdated taskId patch)))
    (amended : ∀ planId taskId patch, motive (.plan (.planTaskAmended planId taskId patch)))
    (modified : ∀ planId runId, motive (.plan (.planModifiedByHuman planId runId)))
    (renamed : ∀ id title instant, motive (.document (.documentRenamed id title instant)))
    (replaced : ∀ id content instant, motive (.document (.documentContentReplaced id content instant))) :
    motive event := by
  unfold IsQuiet at h
  split at h
  · exact updated _ _
  · exact amended _ _ _
  · exact modified _ _
  · exact renamed _ _ _
  · exact replaced _ _ _
  · cases h

theorem derives (h : event.IsQuiet) : LifecycleGate.deriveCheck event = none := by
  refine h.elim ?_ ?_ ?_ ?_ ?_ <;> intros <;> rfl

theorem notes (h : event.IsQuiet) (db : Database) (pending : Reconciliation.Pending) :
    Reconciliation.note db pending event = pending := by
  refine h.elim ?_ ?_ ?_ ?_ ?_ <;> intros <;> rfl

theorem notLifecycle (h : event.IsQuiet) : Handler.isTaskLifecycle event = false := by
  refine h.elim ?_ ?_ ?_ ?_ ?_ <;> intros <;> rfl

theorem authenticated (h : event.IsQuiet) (caller : Caller) : Handler.authenticated caller event = event := by
  refine h.elim ?_ ?_ ?_ ?_ ?_ <;> intros <;> rfl

theorem logs {config : Config} {env : Env} {db : Database} {envelope : EventEnvelope} (h : envelope.payload.IsQuiet) :
    AutoAppend.logEntry config env db envelope = none := by
  have hLine : AutoAppend.renderLogLine config.text env db envelope = none := by
    unfold AutoAppend.renderLogLine
    generalize envelope.payload = event at h
    refine h.elim ?_ ?_ ?_ ?_ ?_ <;> intros <;> rfl
  unfold AutoAppend.logEntry
  rw [hLine]
  rfl

theorem checks (h : ∀ event ∈ events, event.IsQuiet) : LifecycleGate.deriveGateChecks events = [] := by
  have hNone : events.filterMap LifecycleGate.deriveCheck = [] :=
    filterMap_eq_nil_iff.mpr fun event hMem => (h event hMem).derives
  rw [LifecycleGate.deriveGateChecks, hNone]
  rfl

/-- They bring no plan to its end. -/
theorem reconciles (h : ∀ event ∈ events, event.IsQuiet) (db : Database) :
    Reconciliation.planReconciliations db events = [] := by
  have hNoted : ∀ pending, events.foldl (Reconciliation.note db) pending = pending := by
    intro pending
    induction events with
    | nil => rfl
    | cons event rest ih =>
      obtain ⟨hEvent, hRest⟩ := forall_mem_cons.mp h
      rw [foldl_cons, hEvent.notes]
      exact ih hRest
  unfold Reconciliation.planReconciliations
  rw [hNoted]
  exact Reconciliation.drain_idle _

theorem autoAppends {config : Config} {env : Env} {envelopes : List EventEnvelope}
    (h : ∀ envelope ∈ envelopes, envelope.payload.IsQuiet) (db : Database) :
    AutoAppend.autoAppendLogs config env db envelopes = db := by
  induction envelopes with
  | nil => rfl
  | cons envelope rest ih =>
    obtain ⟨hFirst, hRest⟩ := forall_mem_cons.mp h
    unfold AutoAppend.autoAppendLogs
    dsimp only
    rw [hFirst.logs]
    exact ih hRest

end Event.IsQuiet

namespace Handler

variable {config : Config} {db : Database} {env : Env} {claimed : Actor} {command : Command} {batch : List Event}

/-! A call of the server's own repeats no run, and owns none. -/

theorem internal_noRetry (db : Database) (command : Command) : isCompletedRunRetry db .internal command = false := by
  unfold isCompletedRunRetry
  split
  · rename_i hAgent
    cases hAgent
  · rfl

theorem internal_noOwner (db : Database) (command : Command) : ensureRunCompletionOwner db .internal command = .ok () := by
  unfold ensureRunCompletionOwner
  split
  · rename_i hAgent
    cases hAgent
  · rfl

theorem draft_quiet (hSource : resolveSource config db ((env.part 0).part 0) claimed command = .ok ⟨command, [], []⟩)
    (hBuilt : buildEvents config db ((env.part 0).part 1) claimed command db.relations = (.ok batch, db.relations))
    (hQuiet : ∀ event ∈ batch, event.IsQuiet) :
    draft config db (env.part 0) .internal claimed command db.relations = (.ok (batch, []), db.relations) := by
  have hUnsourced : withSource ⟨command, [], []⟩ batch = batch := by
    unfold withSource
    split <;> rfl
  have hAuthenticated : batch.map (authenticated .internal) = batch := by
    refine (map_congr_left fun event hMem => ?_).trans (map_id _)
    exact (hQuiet event hMem).authenticated _
  unfold draft
  rw [bind_eq]
  dsimp only [Stateful.lift]
  rw [hSource]
  dsimp only
  rw [bind_eq, hBuilt]
  dsimp only
  rw [hUnsourced, hAuthenticated, Event.IsQuiet.reconciles hQuiet, map_nil, append_nil]
  rfl

theorem MintsNew.part (h : MintsNew env db) (k : Nat) : MintsNew (env.part k) db where
  fresh := fun n => h.fresh (Nat.pair k n)
  distinct := fun _ _ hSame => (Nat.pair_eq_pair.mp (h.distinct hSame)).2

theorem persist_quiet {envelopes : List EventEnvelope} (hEnds : endsPlan command = false)
    (hQuiet : ∀ envelope ∈ envelopes, envelope.payload.IsQuiet) (db : Database) (env : Env) :
    persist db env .internal claimed command envelopes = appendBatch db envelopes := by
  have hNone : (envelopes.any fun envelope => isTaskLifecycle envelope.payload) = false :=
    any_eq_false.mpr fun envelope hMem => by
      rw [(hQuiet envelope hMem).notLifecycle]
      exact Bool.false_ne_true
  have hPersist : persist db env .internal claimed command envelopes =
      if envelopes.any fun envelope => isTaskLifecycle envelope.payload then
        AgentClaimRepo.recordTaskLifecycle db env claimed envelopes
      else if endsPlan command then
        AgentClaimRepo.recordPlanTerminal db env claimed none false envelopes
      else appendBatch db envelopes := by
    cases command with
    | run command => cases command <;> rfl
    | _ => rfl
  rw [hPersist, hNone, hEnds]
  rfl

theorem handle_quiet (hMints : MintsNew env db) (hEnds : endsPlan command = false)
    (hRelinks : ∀ envelopes, withProvenance command envelopes = envelopes)
    (hActor : attributedActor .internal command claimed = claimed)
    (hSource : resolveSource config db ((env.part 0).part 0) claimed command = .ok ⟨command, [], []⟩)
    (hBuilt : buildEvents config db ((env.part 0).part 1) claimed command db.relations = (.ok batch, db.relations))
    (hQuiet : ∀ event ∈ batch, event.IsQuiet) (hNonempty : batch ≠ []) :
    ∃ persisted appended, appendBatch db (envelopesOf (env.part 2) claimed batch) = .ok (persisted, appended) ∧
      ∀ applied, Projections.applyEvents (env.part 4) persisted appended = (.ok (), applied) →
        handleWithRunOwner config env .internal command claimed db = (.ok ⟨persisted, []⟩, applied) := by
  obtain ⟨persisted, appended, hAppend⟩ := (hMints.part 2).appends claimed batch
  refine ⟨persisted, appended, hAppend, fun applied hApplied => ?_⟩
  have hDraft := draft_quiet hSource hBuilt hQuiet
  have hGated : GateStage.gated config (env.part 1) claimed (gateOverrideOf command) batch db =
      (.ok GateStage.Trail.empty, db) := by
    cases hGate : config.lifecycleGate with
    | none =>
      unfold GateStage.gated
      rw [hGate]
      rfl
    | some gate => exact gated_passed hGate (by rw [Event.IsQuiet.checks hQuiet]; rfl)
  have hSurround : GateStage.Trail.empty.surround batch = batch := append_nil _
  have hEnvelopes : ∀ envelope ∈ envelopesOf (env.part 2) claimed batch, envelope.payload.IsQuiet := by
    intro envelope hMem
    have hPayload := mem_map_of_mem (f := EventEnvelope.payload) hMem
    rw [envelopesOf_payload] at hPayload
    exact hQuiet _ hPayload
  have hPersisted : ∀ envelope ∈ persisted, envelope.payload.IsQuiet := by
    intro envelope hMem
    have hPayload := mem_map_of_mem (f := EventEnvelope.payload) hMem
    rw [(appendBatch_ok hAppend).1, envelopesOf_payload] at hPayload
    exact hQuiet _ hPayload
  rw [handle_of_draft (internal_noRetry db command) (internal_noOwner db command) (by rw [hActor]; exact hDraft) hNonempty, hActor, bind_eq, hGated]
  dsimp only
  rw [hSurround, hRelinks]
  unfold commit
  rw [bind_eq, bind_eq]
  dsimp only [Stateful.get]
  rw [bind_eq]
  dsimp only [Stateful.lift]
  rw [persist_quiet hEnds hEnvelopes, hAppend]
  dsimp only
  rw [bind_eq]
  dsimp only [Stateful.set]
  change (Projections.applyEvents (env.part 4) persisted >>= _) appended = _
  rw [bind_eq, hApplied]
  change (Except.ok (⟨persisted, [] ++ []⟩ : DispatchOutcome), AutoAppend.autoAppendLogs config (env.part 5) applied persisted) = _
  rw [Event.IsQuiet.autoAppends hPersisted]
  rfl

theorem handle_unbuilt {e : CoreError}
    (hSource : resolveSource config db ((env.part 0).part 0) claimed command = .ok ⟨command, [], []⟩)
    (hActor : attributedActor .internal command claimed = claimed)
    (hBuilt : buildEvents config db ((env.part 0).part 1) claimed command db.relations = (.error e, db.relations)) :
    handleWithRunOwner config env .internal command claimed db = (.error e, db) := by
  have hDraft : draft config db (env.part 0) .internal claimed command db.relations = (.error e, db.relations) := by
    unfold draft
    rw [bind_eq]
    dsimp only [Stateful.lift]
    rw [hSource]
    dsimp only
    rw [bind_eq, hBuilt]
  unfold handleWithRunOwner
  rw [bind_eq]
  dsimp only [Stateful.get]
  rw [if_neg (by rw [internal_noRetry]; exact Bool.false_ne_true), bind_eq]
  dsimp only [Stateful.lift]
  rw [internal_noOwner, hActor]
  dsimp only
  rw [bind_eq]
  unfold building
  rw [hDraft]

end Handler

namespace Projections

variable {env : Env} {envelope : EventEnvelope} {db : Database}

/-- What the projections of a quiet event leave. -/
def quietly (tasks : Tasks) (envelope : EventEnvelope) (db : Database) : Database :=
  { documents envelope { db with tasks := tasks } with
    activity := ActivityRepo.applyEvent db.activity envelope }

theorem inTurn_quiet {tasks : Tasks} (hQuiet : envelope.payload.IsQuiet)
    (hTasks : TaskRepo.applyEvent db.tasks env envelope = .ok tasks) :
    Stateful.inTurn (projectors env envelope) db = (.ok (), quietly tasks envelope db) := by
  obtain ⟨id, seq, occurredAt, actor, originDeviceId, originSeq, payload⟩ := envelope
  have hFirst : Projections.tasks env ⟨id, seq, occurredAt, actor, originDeviceId, originSeq, payload⟩ db =
      .ok { db with tasks := tasks } := by
    unfold Projections.tasks
    rw [hTasks]
    rfl
  rw [projectors, Stateful.inTurn]
  dsimp only
  rw [hFirst]
  dsimp only
  change payload.IsQuiet at hQuiet
  clear hTasks hFirst
  refine hQuiet.elim ?_ ?_ ?_ ?_ ?_ <;> intros <;> rfl

/-- What a quiet batch does not write. -/
structure Quietly (before after : Database) : Prop where
  relations : after.relations = before.relations
  agentClaims : after.agentClaims = before.agentClaims
  events : after.events = before.events

/-- The tasks after a batch, where they take all of it. -/
def tasksAfter (env : Env) (tasks : Tasks) (envelopes : List EventEnvelope) : Result Tasks :=
  envelopes.foldlM (fun tasks envelope => TaskRepo.applyEvent tasks (env.part envelope.seq) envelope) tasks

theorem applyEvents_quiet {envelopes : List EventEnvelope} {tasks : Tasks} {db : Database}
    (hQuiet : ∀ envelope ∈ envelopes, envelope.payload.IsQuiet) (hTasks : tasksAfter env db.tasks envelopes = .ok tasks) :
    ∃ applied, applyEvents env envelopes db = (.ok (), applied) ∧ applied.tasks = tasks ∧
      applied.documents = envelopes.foldl DocumentRepo.applyEvent db.documents ∧ Quietly db applied := by
  induction envelopes generalizing db with
  | nil =>
    cases hTasks
    exact ⟨db, rfl, rfl, rfl, rfl, rfl, rfl⟩
  | cons envelope rest ih =>
    obtain ⟨hFirst, hRest⟩ := forall_mem_cons.mp hQuiet
    unfold tasksAfter at hTasks
    rw [foldlM_cons] at hTasks
    obtain ⟨middle, hMiddle, hLater⟩ := Outcome.bind_eq_ok.mp hTasks
    obtain ⟨applied, hApplied, hAfter, hDocuments, hQuietly⟩ := @ih (quietly middle envelope db) hRest hLater
    refine ⟨applied, ?_, hAfter, hDocuments, hQuietly.relations, hQuietly.agentClaims, hQuietly.events⟩
    unfold applyEvents batchProjectors
    rw [flatMap_cons, inTurn_append, inTurn_quiet hFirst hMiddle]
    exact hApplied

end Projections

/-- The fields of a task that a rollback restores. -/
structure TaskContent where
  title : String
  description : String
  projectId : Option ProjectId
  status : Status
  priority : Priority
  triageState : Option TriageState
  dueAt : Option Timestamp
  gitContext : Option GitContext

def Task.content (task : Task) : TaskContent :=
  ⟨task.title, task.description, task.projectId, task.status, task.priority, task.triageState, task.dueAt, task.gitContext⟩

def TaskPatch.onContent (self : TaskPatch) (content : TaskContent) : TaskContent where
  title := self.title.getD content.title
  description := self.description.getD content.description
  projectId := self.projectId.getD content.projectId
  status := self.status.getD content.status
  priority := self.priority.getD content.priority
  triageState := self.triageState.getD content.triageState
  dueAt := self.dueAt.getD content.dueAt
  gitContext := self.gitContext.getD content.gitContext

/-- What a patch leaves: its fields in one row, and all else as it was. -/
structure Patched (id : TaskId) (patch : TaskPatch) (before after : Database) : Prop where
  row : ∀ current, before.tasks.find? id = some current → ∃ task, after.tasks.find? id = some task ∧
    task.content = patch.onContent current.content ∧ task.completedAt = current.completedAt ∧
    task.pipelinePosition = current.pipelinePosition
  others : ∀ other, other ≠ id → after.tasks.find? other = before.tasks.find? other
  keys : TaskRepo.KeysDistinct after.tasks
  documents : after.documents = before.documents
  relations : after.relations = before.relations
  agentClaims : after.agentClaims = before.agentClaims

theorem TaskRepo.applyEvent_updated {tasks : Tasks} {env : Env} {envelope : EventEnvelope} {id : TaskId} {patch : TaskPatch}
    {current : Task} (hKeys : KeysDistinct tasks) (hPayload : envelope.payload = .task (.taskUpdated id patch))
    (hPosition : patch.pipelinePosition = none) (hRow : tasks.find? id = some current) :
    ∃ written, applyEvent tasks env envelope = .ok written ∧ KeysDistinct written ∧
      (∀ other, other ≠ id → written.find? other = tasks.find? other) ∧
      written.find? id = some { patchRow envelope patch current with pipelinePosition := current.pipelinePosition } := by
  have hId : current.id = id := key_of_find? hRow
  obtain ⟨written, hWritten⟩ : ∃ written, updateTask tasks id (patchRow envelope patch) = .ok written :=
    hKeys.updateTask_ok (fun _ => rfl) fun _ => rfl
  have hApplied : applyEvent tasks env envelope = .ok written := by
    unfold applyEvent
    rw [hPayload]
    dsimp only [applyTaskEvent]
    rw [hWritten, hPosition]
  have hUpsert : written = tasks.upsert { patchRow envelope patch current with pipelinePosition := current.pipelinePosition } := by
    have hTaken := hWritten
    unfold updateTask at hTaken
    rw [hRow] at hTaken
    dsimp only at hTaken
    unfold upsertTask at hTaken
    split at hTaken
    · cases hTaken
    · have hOld : (tasks.find? (patchRow envelope patch current).id).bind Task.pipelinePosition = current.pipelinePosition := by
        change (tasks.find? current.id).bind Task.pipelinePosition = _
        rw [hId, hRow]
        rfl
      rw [hOld] at hTaken
      cases hTaken
      rfl
  refine ⟨written, hApplied, hKeys.updateTask hWritten, fun other hOther => ?_, ?_⟩
  · rw [hUpsert, find?_upsert]
    exact if_neg fun hSame => hOther (hSame.symm.trans hId)
  · rw [hUpsert, find?_upsert]
    exact if_pos hId

namespace Projections

variable {envelopes : List EventEnvelope}

theorem tasksAfter_plans {env : Env} {tasks : Tasks}
    (h : ∀ envelope ∈ envelopes, ∃ event, envelope.payload = .plan event) : tasksAfter env tasks envelopes = .ok tasks := by
  induction envelopes with
  | nil => rfl
  | cons envelope rest ih =>
    obtain ⟨⟨event, hPayload⟩, hRest⟩ := forall_mem_cons.mp h
    have hSame : TaskRepo.applyEvent tasks (env.part envelope.seq) envelope = .ok tasks := by
      unfold TaskRepo.applyEvent
      rw [hPayload]
    unfold tasksAfter
    rw [foldlM_cons, hSame]
    exact ih hRest

theorem documents_same {documents : DocumentRepo.Documents}
    (h : ∀ envelope ∈ envelopes, ∀ event, envelope.payload ≠ .document event) :
    envelopes.foldl DocumentRepo.applyEvent documents = documents := by
  induction envelopes with
  | nil => rfl
  | cons envelope rest ih =>
    obtain ⟨hFirst, hRest⟩ := forall_mem_cons.mp h
    have hSame : DocumentRepo.applyEvent documents envelope = documents := by
      unfold DocumentRepo.applyEvent
      split
      · rename_i event hPayload
        exact absurd hPayload (hFirst event)
      · rfl
    rw [foldl_cons, hSame]
    exact ih hRest

end Projections

namespace Handler

variable {config : Config} {db after : Database} {env : Env} {claimed : Actor} {command : Command} {id : TaskId} {patch : TaskPatch}
  {current : Task}

theorem appendBatch_ids {envelopes stored : List EventEnvelope} {db db' : Database}
    (h : appendBatch db envelopes = .ok (stored, db')) : stored.map EventEnvelope.id = envelopes.map EventEnvelope.id := by
  induction envelopes generalizing db stored with
  | nil =>
    cases h
    rfl
  | cons envelope rest ih =>
    unfold appendBatch at h
    cases hFirst : appendOn db envelope with
    | error e =>
      rw [hFirst] at h
      cases h
    | ok first =>
      obtain ⟨row, middle⟩ := first
      rw [hFirst] at h
      dsimp only at h
      cases hRest : appendBatch middle rest with
      | error e =>
        rw [hRest] at h
        cases h
      | ok later =>
        rw [hRest] at h
        cases h
        rw [map_cons, map_cons, ih hRest, (appendOn_ok hFirst).1]

theorem appended_new {events : List Event} {persisted : List EventEnvelope} {appended : Database}
    (hAppend : appendBatch db (envelopesOf env claimed events) = .ok (persisted, appended)) {eventId : EventId}
    (hNew : db.events.find? eventId = none) (hOther : ∀ n, eventId ≠ env.fresh n) : appended.events.find? eventId = none := by
  obtain ⟨_, hRows, _⟩ := appendBatch_ok hAppend
  refine find?_eq_none_iff.mpr fun row hRow hSame => ?_
  have hMem : row ∈ db.events.rows ++ persisted := hRows ▸ hRow
  rcases mem_append.mp hMem with hOld | hPersisted
  · exact find?_eq_none_iff.mp hNew row hOld hSame
  · have hId : row.id ∈ persisted.map EventEnvelope.id := mem_map_of_mem hPersisted
    rw [appendBatch_ids hAppend, envelopesOf_ids] at hId
    obtain ⟨n, _, hIs⟩ := mem_map.mp hId
    exact hOther n (hSame.symm.trans hIs.symm)

theorem MintsNew.later {k : Nat} (h : MintsNew env db) (hk : k ≠ 0)
    (hKept : ∀ eventId, db.events.find? eventId = none → (∀ n, eventId ≠ ((env.part 0).part 2).fresh n) →
      after.events.find? eventId = none) : MintsNew (env.part k) after := by
  refine ⟨fun n => hKept _ ((h.part k).fresh n) fun m hSame => ?_, (h.part k).distinct⟩
  exact hk (Nat.pair_eq_pair.mp (h.distinct (congrArg Id.uuid hSame))).1

theorem patch_runs {first last : List PlanEvent} (hMints : MintsNew env db) (hKeys : TaskRepo.KeysDistinct db.tasks)
    (hRow : db.tasks.find? id = some current) (hPosition : patch.pipelinePosition = none)
    (hEnds : endsPlan command = false) (hRelinks : ∀ envelopes, withProvenance command envelopes = envelopes)
    (hActor : attributedActor .internal command claimed = claimed)
    (hSource : resolveSource config db ((env.part 0).part 0) claimed command = .ok ⟨command, [], []⟩)
    (hBuilt : buildEvents config db ((env.part 0).part 1) claimed command db.relations =
      (.ok (first.map .plan ++ .task (.taskUpdated id patch) :: last.map .plan), db.relations))
    (hQuiet : ∀ event ∈ first ++ last, (Event.plan event).IsQuiet) :
    ∃ answer after, handleWithRunOwner config env .internal command claimed db = (.ok answer, after) ∧
      Patched id patch db after ∧
      ∀ eventId, db.events.find? eventId = none → (∀ n, eventId ≠ (env.part 2).fresh n) → after.events.find? eventId = none := by
  have hAllQuiet : ∀ event ∈ first.map Event.plan ++ .task (.taskUpdated id patch) :: last.map Event.plan, event.IsQuiet := by
    intro event hMem
    rcases mem_append.mp hMem with hFirst | hMem
    · obtain ⟨event, hEvent, rfl⟩ := mem_map.mp hFirst
      exact hQuiet event (mem_append_left _ hEvent)
    · rcases mem_cons.mp hMem with rfl | hLast
      · trivial
      · obtain ⟨event, hEvent, rfl⟩ := mem_map.mp hLast
        exact hQuiet event (mem_append_right _ hEvent)
  obtain ⟨persisted, appended, hAppend, hHandled⟩ := handle_quiet hMints hEnds hRelinks hActor hSource hBuilt hAllQuiet
    (by simp)
  have hPayloads : persisted.map EventEnvelope.payload =
      first.map Event.plan ++ .task (.taskUpdated id patch) :: last.map Event.plan := by
    rw [(appendBatch_ok hAppend).1, envelopesOf_payload]
  have hPersisted : ∀ envelope ∈ persisted, envelope.payload.IsQuiet := by
    intro envelope hMem
    exact hAllQuiet _ (hPayloads ▸ mem_map_of_mem hMem)
  have hNoDocument : ∀ envelope ∈ persisted, ∀ event, envelope.payload ≠ .document event := by
    intro envelope hMem event hIs
    have hIn : Event.document event ∈ first.map Event.plan ++ .task (.taskUpdated id patch) :: last.map Event.plan := by
      rw [← hPayloads, ← hIs]
      exact mem_map_of_mem hMem
    simp at hIn
  obtain ⟨events, latestSeq, rfl⟩ := (appendBatch_ok hAppend).2.2
  obtain ⟨before, others, rfl, hBefore, hOthers⟩ := map_eq_append_iff.mp hPayloads
  obtain ⟨envelope, behind, rfl, hEnvelope, hBehind⟩ := map_eq_cons_iff.mp hOthers
  have hPlans : ∀ (planned : List PlanEvent) (envelopes : List EventEnvelope),
      envelopes.map EventEnvelope.payload = planned.map Event.plan →
        ∀ envelope ∈ envelopes, ∃ event, envelope.payload = .plan event := by
    intro planned envelopes hSame envelope hMem
    have hIn : envelope.payload ∈ planned.map Event.plan := hSame ▸ mem_map_of_mem hMem
    obtain ⟨event, _, hIs⟩ := mem_map.mp hIn
    exact ⟨event, hIs.symm⟩
  obtain ⟨written, hWritten, hDistinct, hOtherRows, hPatched⟩ :=
    @TaskRepo.applyEvent_updated db.tasks ((env.part 4).part envelope.seq) envelope id patch current hKeys hEnvelope hPosition hRow
  have hTasks : Projections.tasksAfter (env.part 4) db.tasks (before ++ envelope :: behind) = .ok written := by
    unfold Projections.tasksAfter
    rw [foldlM_append, ← Projections.tasksAfter, Projections.tasksAfter_plans (hPlans first before hBefore)]
    change (do
      let tasks ← TaskRepo.applyEvent db.tasks ((env.part 4).part envelope.seq) envelope
      Projections.tasksAfter (env.part 4) tasks behind) = _
    rw [hWritten]
    exact Projections.tasksAfter_plans (hPlans last behind hBehind)
  obtain ⟨applied, hApplied, hAfter, hDocuments, hQuietly⟩ := @Projections.applyEvents_quiet _ _ _
    { db with events := events, latestSeq := latestSeq } hPersisted hTasks
  refine ⟨_, applied, hHandled applied hApplied, ⟨fun row hIs => ?_, fun other hOther => ?_, ?_, ?_, ?_, ?_⟩,
    fun eventId hNew hOther => ?_⟩
  · cases hRow.symm.trans hIs
    rw [hAfter]
    exact ⟨_, hPatched, rfl, rfl, rfl⟩
  · rw [hAfter]
    exact hOtherRows other hOther
  · rw [hAfter]
    exact hDistinct
  · rw [hDocuments]
    exact Projections.documents_same hNoDocument
  · exact hQuietly.relations
  · exact hQuietly.agentClaims
  · rw [hQuietly.events]
    exact appended_new hAppend hNew hOther

end Handler
end Daruma
