import Daruma.Core.Handler

/-! How a call of the handler can end. Either its batch was appended, and was then
projected as far as the projections took it, or the log grew by the audit of a
refusal at most. -/
namespace Daruma

open Stateful
open GateStage (Trail gated recordRefusal)
open Projections (applyEvents)

open Stateful (ReadsOnly)

/-- A command that may write relations before its batch is persisted: one that
completes tasks, deletes one, or edits the relations themselves. -/
def Command.writesRelations : Command → Bool
  | .task (.completeTask ..) | .task (.deleteTask _) => true
  | .task (.setStatus _ status ..) | .task (.bulkSetStatus _ status) => status = .done
  | .task (.advancePipeline _ position) => canonicalStatus position = .done
  | .task (.closePipelineStage _ _ _ next) => next.any fun position => canonicalStatus position = .done
  | .relation _ => true
  | _ => false

namespace TaskCommands

variable {db : Database} {actor : Actor}

variable {task : Task} {toStatus status : Status} {now : Timestamp} {env : Env} {id : TaskId}
  {position : PipelinePosition}

theorem statusTransitionEvents_readsOnly
    (h : toStatus ≠ .done) : ReadsOnly (statusTransitionEvents db task toStatus actor now) := by
  unfold statusTransitionEvents
  refine .ite (fun _ => .pure) fun _ => .bind .get fun relations => .bind .lift fun _ => ?_
  rw [if_neg h]
  exact .bind .pure fun released => .pure

theorem emitStatusTransitionEvents_readsOnly
    (h : toStatus ≠ .done) : ReadsOnly (emitStatusTransitionEvents db task toStatus actor now) :=
  .bind .lift fun _ => statusTransitionEvents_readsOnly h

theorem setStatus_readsOnly {comment : Option TransitionComment} (h : status ≠ .done) :
    ReadsOnly (setStatus db env actor id status comment) := by
  refine .bind .lift fun task => .bind .lift fun note =>
    .bind (emitStatusTransitionEvents_readsOnly h) fun events => ?_
  cases note with
  | none => exact .pure
  | some body => exact .ite (fun _ => .pure) fun _ => .pure

theorem bulkSetStatus_readsOnly {ids : List TaskId} (h : status ≠ .done) :
    ReadsOnly (bulkSetStatus db env actor ids status) :=
  .bind .lift fun _ => .bind .lift fun _ =>
    .collect fun _ _ => emitStatusTransitionEvents_readsOnly h

theorem advancePipelineEvents_readsOnly
    (h : canonicalStatus position ≠ .done) : ReadsOnly (advancePipelineEvents db env actor task position) :=
  .bind .lift fun _ => .bind (statusTransitionEvents_readsOnly h) fun _ => .pure

theorem advancePipeline_readsOnly
    (h : canonicalStatus position ≠ .done) : ReadsOnly (advancePipeline db env actor id position) := by
  refine .bind .lift fun _ => .bind .lift fun task => .ite (fun _ => .pure) fun _ => ?_
  split
  · exact .lift
  · exact advancePipelineEvents_readsOnly h

theorem closePipelineStage_readsOnly {stageIndex : Nat} {instanceName : String} {next : Option PipelinePosition} (h : ∀ position ∈ next, canonicalStatus position ≠ .done) :
    ReadsOnly (closePipelineStage db env actor id stageIndex instanceName next) := by
  refine .bind .lift fun task => .bind .lift fun position => .bind .lift fun _ => .bind .lift fun _ =>
    .bind .lift fun closed => ?_
  obtain ⟨fanIn, closed⟩ := closed
  cases fanIn with
  | repeated | pending => exact .pure
  | closed =>
    cases next with
    | none => exact .pure
    | some target =>
      exact .bind (advancePipelineEvents_readsOnly (h target rfl)) fun advanced => .pure

theorem buildEvents_readsOnly {config : Config} {command : TaskCommand}
    (h : (Command.task command).writesRelations = false) : ReadsOnly (buildEvents config db env actor command) := by
  cases command with
  | createTask | updateTask | setPriority | splitTask => exact .lift
  | completeTask | deleteTask => exact Bool.noConfusion h
  | setStatus id status force reason comment => exact setStatus_readsOnly (of_decide_eq_false h)
  | advancePipeline id position => exact advancePipeline_readsOnly (of_decide_eq_false h)
  | closePipelineStage id stageIndex instanceName next =>
    refine closePipelineStage_readsOnly fun position hNext => ?_
    cases hNext
    exact of_decide_eq_false h
  | bulkSetStatus ids status => exact bulkSetStatus_readsOnly (of_decide_eq_false h)

end TaskCommands

theorem buildEvents_readsOnly {config : Config} {db : Database} {env : Env} {actor : Actor}
    {command : Command} (h : command.writesRelations = false) :
    ReadsOnly (buildEvents config db env actor command) := by
  cases command with
  | task command => exact TaskCommands.buildEvents_readsOnly h
  | relation command => exact Bool.noConfusion h
  | _ => exact .lift

namespace Handler

variable {config : Config} {env : Env} {command : Command}

variable {α : Type}

variable {db : Database} {actor : Actor}

/-- Resolving a source may change the plan that a command names, and nothing else of it. -/
theorem resolveSource_reads (g : Command → α) (hMaterialized : ∀ plan resolved tasks,
      g (.plan (.materializePlan resolved tasks none)) = g (.plan (.materializePlan plan tasks none)))
    (hCreated : ∀ plan resolved externalRef,
      g (.plan (.createPlan resolved externalRef)) = g (.plan (.createPlan plan externalRef))) :
    Outcome.Yields (resolveSource config db env actor command) fun sourced => g sourced.command = g command := by
  unfold resolveSource
  split
  · refine .andThen fun resolved _ => .ite (fun _ => ?_) fun _ => ?_
    · exact .pure (hMaterialized _ _ _)
    · exact .andThen fun _ _ => .pure (hMaterialized _ _ _)
  · exact .andThen fun resolved _ => .pure (hCreated _ _ _)
  · exact .andThen fun prepared _ => .andThen fun linked _ => .pure (hCreated _ _ _)
  · exact .andThen fun extended _ => .pure rfl
  · exact .pure rfl

theorem resolveSource_writesRelations :
    Outcome.Yields (resolveSource config db env actor command) fun sourced =>
      sourced.command.writesRelations = command.writesRelations :=
  resolveSource_reads Command.writesRelations (fun _ _ _ => rfl) fun _ _ _ => rfl

theorem draft_readsOnly {caller : Caller} (h : command.writesRelations = false) :
    ReadsOnly (draft config db env caller actor command) := by
  intro relations
  unfold draft
  rw [bind_eq]
  cases hSource : resolveSource config db (env.part 0) actor command with
  | error e => rfl
  | ok sourced =>
    have hReads : sourced.command.writesRelations = false :=
      (resolveSource_writesRelations sourced hSource).trans h
    exact (Stateful.ReadsOnly.bind (buildEvents_readsOnly hReads) fun built => .pure) relations

end Handler

open Outcome

/-- The audit trail and telemetry of the rules. -/
def Event.isAudit : Event → Bool
  | .audit _ => true
  | _ => false

/-- Whether an event is persisted as its batch has it, and only from there. -/
def Event.isBuilt : Event → Bool
  | .task (.taskCreated _) | .audit _ | .claim _ => false
  | _ => true

namespace Handler

/-- The log grew by audit events, and the feed with it; nothing else changed. -/
def Audited (before after : Database) : Prop :=
  ∃ audit : List EventEnvelope, (∀ envelope ∈ audit, envelope.payload.isAudit = true) ∧
    after.events.rows = before.events.rows ++ audit ∧
    ∃ events latestSeq activity,
      after = { before with events := events, latestSeq := latestSeq, activity := activity }

theorem Audited.refl (db : Database) : Audited db db :=
  ⟨[], fun _ h => absurd h List.not_mem_nil, (List.append_nil _).symm, _, _, _, rfl⟩

variable {config : Config} {env : Env} {caller : Caller} {command : Command} {actor claimed : Actor}
  {db db' : Database}

variable {events : List Event} {outcome : Except CoreError DispatchOutcome}

theorem envelopesOf_payload : (envelopesOf env actor events).map EventEnvelope.payload = events := by
  apply List.ext_getElem
  · simp [envelopesOf]
  · intro n h h'
    simp [envelopesOf, EventEnvelope.new]

theorem recordRefusal_audited {audit : List AuditEvent} {outcome : Except CoreError Unit}
    (h : recordRefusal env actor audit db = (outcome, db')) : Audited db db' := by
  unfold recordRefusal at h
  split at h
  · obtain ⟨_, rfl⟩ := pure_eq.mp h
    exact .refl db
  · rcases bind_cases h with ⟨e, _, hGet⟩ | ⟨current, middle, hGet, h⟩
    · obtain ⟨_, rfl⟩ := get_eq.mp hGet
      exact .refl db
    obtain ⟨hCurrent, rfl⟩ := get_eq.mp hGet
    cases hCurrent
    rcases lift_bind_cases h with ⟨e, _, _, rfl⟩ | ⟨⟨persisted, appended⟩, hAppended, h⟩
    · exact .refl db
    obtain ⟨_, rfl⟩ := set_eq.mp h
    obtain ⟨hPayloads, hRows, _, _, rfl⟩ := appendBatch_ok hAppended
    refine ⟨persisted, fun envelope hMem => ?_, hRows, _, _, _, rfl⟩
    have hPayload : envelope.payload ∈ audit.map Event.audit := by
      rw [envelopesOf_payload] at hPayloads
      exact hPayloads ▸ List.mem_map_of_mem hMem
    obtain ⟨event, _, hEvent⟩ := List.mem_map.mp hPayload
    rw [← hEvent]
    rfl

theorem gated_cases {override : GateOverride} {outcome : Except CoreError Trail}
    (h : gated config env actor override events db = (outcome, db')) :
    (∃ trail, outcome = .ok trail ∧ db' = db) ∨ (∃ e, outcome = .error e ∧ Audited db db') := by
  unfold gated at h
  cases hGate : config.lifecycleGate with
  | none =>
    rw [hGate] at h
    obtain ⟨rfl, rfl⟩ := pure_eq.mp h
    exact .inl ⟨_, rfl, rfl⟩
  | some gate =>
    rw [hGate] at h
    rcases bind_cases h with ⟨e, rfl, hGet⟩ | ⟨current, middle, hGet, h⟩
    · cases (get_eq.mp hGet).1
    obtain ⟨hCurrent, rfl⟩ := get_eq.mp hGet
    cases hCurrent
    rcases lift_bind_cases h with ⟨e, rfl, _, rfl⟩ | ⟨verdict, _, h⟩
    · exact .inr ⟨e, rfl, .refl db⟩
    cases verdict with
    | passed trail =>
      obtain ⟨rfl, rfl⟩ := pure_eq.mp h
      exact .inl ⟨trail, rfl, rfl⟩
    | refused audit error =>
      rcases bind_cases h with ⟨e, rfl, hRecord⟩ | ⟨u, middle, hRecord, h⟩
      · exact .inr ⟨e, rfl, recordRefusal_audited hRecord⟩
      · obtain ⟨rfl, rfl⟩ := lift_eq.mp h
        exact .inr ⟨error, rfl, recordRefusal_audited hRecord⟩

structure Accepted (config : Config) (env : Env) (caller : Caller) (command : Command) (claimed : Actor)
    (db : Database) (batch : List Event) (relations : Relations) (trail : Trail)
    (persisted : List EventEnvelope) (appended : Database) : Prop where
  built : ∃ warnings, draft config db (env.part 0) caller (attributedActor caller command claimed) command
    db.relations = (.ok (batch, warnings), relations)
  nonempty : batch ≠ []
  passed : gated config (env.part 1) (attributedActor caller command claimed)
    (gateOverrideOf command) batch { db with relations := relations } =
      (.ok trail, { db with relations := relations })
  stored : persist { db with relations := relations } (env.part 3) caller
    (attributedActor caller command claimed) command (withProvenance command
      (envelopesOf (env.part 2) (attributedActor caller command claimed) (trail.surround batch))) =
      .ok (persisted, appended)

/-- The ways a call ends. -/
inductive Handled (config : Config) (env : Env) (caller : Caller) (command : Command) (claimed : Actor)
    (db : Database) : Except CoreError DispatchOutcome → Database → Prop where
  /-- Nothing to do, or refused before the batch was appended. -/
  | unlogged {outcome : Except CoreError DispatchOutcome} {relations : Relations} {after : Database}
      (hOutcome : ∀ answer, outcome = .ok answer → answer.events = [])
      (hRelations : relations = db.relations ∨ ∃ drafted, draft config db (env.part 0) caller
        (attributedActor caller command claimed) command db.relations = (drafted, relations) ∧
        ∀ answer, outcome = .ok answer → drafted.map Prod.fst = .ok [])
      (hAudited : Audited { db with relations := relations } after) :
      Handled config env caller command claimed db outcome after
  /-- Appended, but a projection refused one of its events. -/
  | stranded {e : CoreError} {batch : List Event} {relations : Relations} {trail : Trail}
      {persisted : List EventEnvelope} {appended after : Database}
      (hAccepted : Accepted config env caller command claimed db batch relations trail persisted appended)
      (hApplied : applyEvents (env.part 4) persisted appended = (.error e, after)) :
      Handled config env caller command claimed db (.error e) after
  | projected {answer : DispatchOutcome} {batch : List Event} {relations : Relations}
      {trail : Trail} {persisted : List EventEnvelope} {appended applied : Database}
      (hAccepted : Accepted config env caller command claimed db batch relations trail persisted appended)
      (hApplied : applyEvents (env.part 4) persisted appended = (.ok (), applied))
      (hAnswer : answer.events = persisted) :
      Handled config env caller command claimed db (.ok answer)
        (AutoAppend.autoAppendLogs config (env.part 5) applied persisted)

theorem commit_ok {envelopes persisted : List EventEnvelope}
    (h : commit env caller actor command envelopes db = (.ok persisted, db')) :
    persist db env caller actor command envelopes = .ok (persisted, db') := by
  replace h := get_bind.mp h
  obtain ⟨⟨stored, appended⟩, hPersist, h⟩ := lift_bind_ok.mp h
  replace h := set_bind.mp h
  obtain ⟨hPersisted, rfl⟩ := pure_eq.mp h
  cases hPersisted
  exact hPersist

theorem building_eq {builder : Building α} {outcome : Except CoreError α}
    (h : building builder db = (outcome, db')) :
    ∃ relations, builder db.relations = (outcome, relations) ∧ db' = { db with relations := relations } := by
  cases h
  exact ⟨_, rfl, rfl⟩

private theorem handled_of_batch {batch : List Event} {warnings : List MutationWarning} {relations : Relations}
    (hBuilt : draft config db (env.part 0) caller (attributedActor caller command claimed) command
      db.relations = (.ok (batch, warnings), relations))
    (hNonempty : batch ≠ [])
    (h : (do
        let trail ← gated config (env.part 1) (attributedActor caller command claimed)
          (gateOverrideOf command) batch
        let envelopes := envelopesOf (env.part 2) (attributedActor caller command claimed)
          (trail.surround batch)
        let persisted ← commit (env.part 3) caller (attributedActor caller command claimed) command
          (withProvenance command envelopes)
        applyEvents (env.part 4) persisted
        let applied ← get
        set (AutoAppend.autoAppendLogs config (env.part 5) applied persisted)
        pure ⟨persisted, warnings ++ trail.warnings⟩ : Serving DispatchOutcome)
      { db with relations := relations } = (outcome, db')) :
    Handled config env caller command claimed db outcome db' := by
  have hRelations : ∀ {e : CoreError}, relations = db.relations ∨ ∃ drafted, draft config db (env.part 0) caller
      (attributedActor caller command claimed) command db.relations = (drafted, relations) ∧
      ∀ answer : DispatchOutcome, .error e = Except.ok answer → drafted.map Prod.fst = .ok [] :=
    .inr ⟨_, hBuilt, fun _ hAnswer => by cases hAnswer⟩
  rcases bind_cases h with ⟨e, rfl, hGated⟩ | ⟨trail, middle, hGated, h⟩
  · obtain ⟨trail, hTrail, _⟩ | ⟨_, _, hAudited⟩ := gated_cases hGated
    · cases hTrail
    · exact .unlogged (fun answer hAnswer => by cases hAnswer) hRelations hAudited
  obtain ⟨_, hTrail, rfl⟩ | ⟨_, hTrail, _⟩ := gated_cases hGated
  swap
  · cases hTrail
  rcases bind_cases h with ⟨e, rfl, hCommit⟩ | ⟨persisted, appended, hCommit, h⟩
  · rcases bind_cases hCommit with ⟨_, _, hGet⟩ | ⟨current, middle, hGet, hCommit⟩
    · cases (get_eq.mp hGet).1
    obtain ⟨_, rfl⟩ := get_eq.mp hGet
    rcases bind_cases hCommit with ⟨_, _, hStored⟩ | ⟨stored, middle, hStored, hCommit⟩
    · obtain ⟨_, rfl⟩ := lift_eq.mp hStored
      exact .unlogged (fun answer hAnswer => by cases hAnswer) hRelations (.refl _)
    · rcases bind_cases hCommit with ⟨_, _, hSet⟩ | ⟨_, _, _, hPure⟩
      · cases (set_eq.mp hSet).1
      · cases (pure_eq.mp hPure).1
  have hStored := commit_ok hCommit
  have hAccepted : Accepted config env caller command claimed db batch relations trail persisted appended :=
    ⟨⟨warnings, hBuilt⟩, hNonempty, hGated, hStored⟩
  rcases bind_cases h with ⟨e, rfl, hApplied⟩ | ⟨_, applied, hApplied, h⟩
  · exact .stranded hAccepted hApplied
  replace h := get_bind.mp h
  replace h := set_bind.mp h
  obtain ⟨rfl, rfl⟩ := pure_eq.mp h
  exact .projected hAccepted hApplied rfl

theorem handled (h : handleWithRunOwner config env caller command claimed db = (outcome, db')) :
    Handled config env caller command claimed db outcome db' := by
  replace h := get_bind.mp h
  dsimp only at h
  split at h
  · obtain ⟨rfl, rfl⟩ := pure_eq.mp h
    exact .unlogged (fun answer hAnswer => by cases hAnswer; rfl) (.inl rfl) (.refl _)
  rcases lift_bind_cases h with ⟨e, rfl, _, rfl⟩ | ⟨_, _, h⟩
  · exact .unlogged (fun answer hAnswer => by cases hAnswer) (.inl rfl) (.refl _)
  rcases bind_cases h with ⟨e, rfl, hBuilt⟩ | ⟨⟨batch, warnings⟩, middle, hBuilt, h⟩
  · obtain ⟨relations, hDraft, rfl⟩ := building_eq hBuilt
    exact .unlogged (fun answer hAnswer => by cases hAnswer) (.inr ⟨_, hDraft, fun answer hAnswer => by cases hAnswer⟩) (.refl _)
  obtain ⟨relations, hDraft, rfl⟩ := building_eq hBuilt
  split at h
  · rename_i hEmpty
    obtain ⟨rfl, rfl⟩ := pure_eq.mp h
    exact .unlogged (fun answer hAnswer => by cases hAnswer; rfl)
      (.inr ⟨_, hDraft, fun _ _ => congrArg Except.ok (List.isEmpty_iff.mp hEmpty)⟩) (.refl _)
  · rename_i hNonempty
    exact handled_of_batch hDraft (by simpa using hNonempty) h

/-- A call that answers repeats the completion of a run, has nothing to record, or
records a batch and projects it to its end. -/
theorem answered {answer : DispatchOutcome} {after : Database}
    (h : handleWithRunOwner config env caller command claimed db = (.ok answer, after)) :
    isCompletedRunRetry db caller command = true ∨ ∃ batch relations,
      (∃ warnings, draft config db (env.part 0) caller (attributedActor caller command claimed) command db.relations =
        (.ok (batch, warnings), relations)) ∧
      ((batch = [] ∧ after = { db with relations := relations }) ∨ ∃ trail persisted appended applied,
        Accepted config env caller command claimed db batch relations trail persisted appended ∧
        applyEvents (env.part 4) persisted appended = (.ok (), applied) ∧ answer.events = persisted ∧
        after = AutoAppend.autoAppendLogs config (env.part 5) applied persisted) := by
  replace h := get_bind.mp h
  dsimp only at h
  split at h
  · rename_i hRetry
    exact .inl hRetry
  obtain ⟨_, _, h⟩ := lift_bind_ok.mp h
  obtain ⟨⟨batch, warnings⟩, middle, hBuilt, h⟩ := bind_eq_ok.mp h
  obtain ⟨relations, hDraft, rfl⟩ := building_eq hBuilt
  refine .inr ⟨batch, relations, ⟨warnings, hDraft⟩, ?_⟩
  dsimp only at h
  split at h
  · rename_i hEmpty
    exact .inl ⟨List.isEmpty_iff.mp hEmpty, (pure_eq.mp h).2.symm⟩
  rename_i hNonempty
  obtain ⟨trail, middle, hGated, h⟩ := bind_eq_ok.mp h
  obtain ⟨_, _, rfl⟩ | ⟨_, hRefused, _⟩ := gated_cases hGated
  swap
  · cases hRefused
  obtain ⟨persisted, appended, hCommit, h⟩ := bind_eq_ok.mp h
  obtain ⟨_, applied, hApplied, h⟩ := bind_eq_ok.mp h
  replace h := get_bind.mp h
  replace h := set_bind.mp h
  obtain ⟨hAnswer, rfl⟩ := pure_eq.mp h
  cases hAnswer
  exact .inr ⟨trail, persisted, appended, applied,
    ⟨⟨warnings, hDraft⟩, by simpa using hNonempty, hGated, commit_ok hCommit⟩, hApplied, rfl, rfl⟩

end Handler
end Daruma
