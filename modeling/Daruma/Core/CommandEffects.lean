import Daruma.Core.Transitions

/-! What the persisted batch of a command makes of the lifecycle of a task. A
command that takes no tasks in spares, moves, deletes or patches it; one that
does creates it or spares it, event by event. -/
namespace Daruma

open Outcome List
open Stateful (Yields)
open EventEnvelope (payload)

/-- The event moves a task between statuses, or removes it. -/
def Event.isTransition : Event → Bool
  | .task (.taskStatusChanged ..) | .task (.taskCompleted ..) | .task (.taskReopened ..)
  | .task (.taskClosed ..) | .task (.taskDeleted _) => true
  | _ => false

def Command.isAboutTasks : Command → Bool
  | .task _ => true
  | _ => false

abbrev NoTransitions (events : List Event) : Prop := Everywhere (fun event => event.isTransition = false) events

variable {event : Event}

section

variable {config : Config} {db : Database} {env : Env} {links : Bool} {actor : Actor} {command : Command}

theorem not_transition_of_not_plain (h : Sanctioned db env command event)
    (hNotPlain : ¬command.IsPlain) : event.isTransition = false := by
  cases event with
  | task event =>
    cases event with
    | taskStatusChanged | taskReopened | taskClosed | taskDeleted => exact absurd h hNotPlain
    | taskCompleted =>
      obtain ⟨completionNote, rfl⟩ := h
      exact absurd ⟨rfl, rfl⟩ hNotPlain
    | _ => rfl
  | _ => rfl

theorem MayRecord.not_transition (h : MayRecord db env links command event) (hAbout : command.isAboutTasks = false) :
    event.isTransition = false := by
  cases h with
  | moved | completed | reopened | closed | deleted => cases hAbout
  | _ => rfl

end

namespace Handler

variable {config : Config} {db : Database} {env : Env} {caller : Caller} {actor claimed : Actor} {command : Command}

theorem draft_noTransitions (h : command.isAboutTasks = false) :
    Yields (draft config db env caller actor command) fun drafted => NoTransitions drafted.1 :=
  draft_rule (fun _ hRecords => hRecords.not_transition h) fun _ _ => rfl

end Handler

theorem Command.intakes_eq_nil {command : Command} {env : Env} (h : command.takesIn = false) :
    command.intakes env = [] := by
  unfold Command.takesIn at h
  unfold Command.intakes
  split <;> split at h <;> simp_all

inductive Effect (command : Command) (db : Database) (events : List Event) (id : TaskId) : Prop where
  | spared (h : Spares events id)
  | moved (task : Task) (toStatus : Status) (h : MovedTo db events id task toStatus)
  | deleted (task : Task) (hFound : db.tasks.find? id = some task) (hCommand : command = .task (.deleteTask id))
      (hRow : ∀ row, lifecycleAfter events id row = none)
      (hDeleted : .task (.taskDeleted id) ∈ events) (hFree : DocumentRepo.listLiveByTask db id = [])
  | patched (status : Status) (hCommand : command.patchesStatus id (some status))
      (hRow : ∀ row, lifecycleAfter events id row = row.map fun row => (status, row.2))
      (hUnended : ¬EndsIn events id)

section

variable {config : Config} {db : Database} {env : Env} {actor : Actor} {command : Command}

theorem Sanctioned.spares (h : Sanctioned db env command event)
    (hTakesIn : command.takesIn = false) (hStill : event.isTransition = false)
    (hNoPatch : ∀ id status, ¬command.patchesStatus id (some status)) (id : TaskId) (row : Option Lifecycle) :
    event.lifecycle id row = row := by
  have hCreates : ∀ new, ¬command.Creates db env new := by
    rintro new ⟨intake, hIntake, _⟩
    rw [Command.intakes_eq_nil hTakesIn] at hIntake
    exact absurd hIntake not_mem_nil
  cases event with
  | task event =>
    cases event with
    | taskCreated new => exact absurd h (hCreates new)
    | taskSplitGenerated parent subtasks =>
      cases subtasks with
      | nil => rfl
      | cons new rest => exact absurd (h new mem_cons_self) (hCreates new)
    | taskUpdated taskId patch =>
      have hNone : patch.status = none := by
        rcases h with ⟨hNone, _⟩ | ⟨_, hNone | hPatches⟩
        · exact hNone
        · exact hNone
        · cases hStatus : patch.status with
          | none => rfl
          | some status => exact absurd (hStatus ▸ hPatches) (hNoPatch taskId status)
      change (if taskId = id then row.map fun row => (patch.status.getD row.1, row.2) else row) = row
      rw [hNone]
      split
      · cases row <;> rfl
      · rfl
    | taskStatusChanged | taskCompleted | taskReopened | taskClosed | taskDeleted => cases hStill
    | _ => rfl
  | _ => rfl

namespace TaskCommands

variable {id : TaskId}

theorem deleteTask_effect : Yields (deleteTask db env id) fun events => ∀ other,
      Effect (.task (.deleteTask id)) db events other := by
  have hUnlink : ∀ relation, Yields (unlink env.now relation) fun events =>
      ∀ event ∈ events, ∀ other row, event.lifecycle other row = row := by
    intro relation
    refine .andThen fun _ => .andThen fun _ => .pure ?_
    exact forall_mem_cons.mpr ⟨fun _ _ => rfl, fun _ h => absurd h not_mem_nil⟩
  refine .bind (.lift requireTask_row) fun task ⟨hId, hFound⟩ => .bind (.lift fun _ h => ensure_eq_ok.mp h)
    fun _ hFree => .andThen fun relations =>
    .bind (.collect fun relation _ => hUnlink relation) fun unlinked hUnlinked => .pure ?_
  have hSpares : SparesAll (unlinked ++
      (RelationEnforcement.listDownstreamToUnblock relations db.tasks id).map
        (fun taskId => Event.task (.taskUnblocked taskId id env.now)) ++
      (PlanRepo.listPlansForTask db id).map (fun plan => Event.plan (.planTaskRemoved plan.id id))) :=
    .append (.append (fun other event hMem => hUnlinked event hMem other) (.map fun _ _ _ _ => rfl))
      (.map fun _ _ _ _ => rfl)
  intro other
  by_cases hSame : id = other
  · subst hSame
    refine .deleted task (hId ▸ hFound) rfl (fun row => ?_) (mem_append_right _ (mem_singleton_self _)) ?_
    · rw [lifecycleAfter_append, (hSpares id).after, lifecycleAfter_cons, lifecycleAfter_nil]
      exact if_pos rfl
    · exact isEmpty_iff.mp hFree
  · exact .spared ((hSpares other).append (.cons (fun _ => if_neg hSame) .nil))

theorem updateTask_effect {patch : TaskPatch} : Yields (updateTask config db id patch) fun events => ∀ other,
      Effect (.task (.updateTask id patch)) db events other := by
  refine .andThen fun _ _ => .andThen fun _ _ => .bind normalizePatch_status fun normal hStatus => ?_
  refine .andThen fun _ _ => .andThen fun _ _ => .andThen fun _ _ => .pure fun other => ?_
  by_cases hSame : id = other
  · subst hSame
    cases hPatch : patch.status with
    | none =>
      refine .spared (.cons (fun row => ?_) .nil)
      change (if id = id then row.map fun row => (normal.status.getD row.1, row.2) else row) = row
      rw [if_pos rfl, hStatus, hPatch]
      cases row <;> rfl
    | some status =>
      refine .patched status ⟨rfl, hPatch⟩ (fun row => ?_) fun ⟨event, hMem, hEnded⟩ => ?_
      · change (if id = id then row.map fun row => (normal.status.getD row.1, row.2) else row) = _
        rw [if_pos rfl, hStatus, hPatch]
        rfl
      · rw [mem_singleton.mp hMem] at hEnded
        cases hEnded
  · exact .spared (.cons (fun _ => if_neg hSame) .nil)

theorem effect_of_movesAmong {ids : List TaskId} {events : List Event} (h : MovesAmong db ids events)
    (id : TaskId) : Effect command db events id := by
  rcases h id with hSpares | ⟨_, task, toStatus, hMoves⟩
  · exact .spared hSpares
  · exact .moved task toStatus hMoves

theorem buildEvents_effect {command : TaskCommand} (h : (Command.task command).takesIn = false) :
    Yields (buildEvents config db env actor command) fun events => ∀ id,
      Effect (.task command) db events id := by
  cases command with
  | createTask | splitTask => cases h
  | updateTask id patch => exact .lift updateTask_effect
  | deleteTask id => exact deleteTask_effect
  | completeTask id completionNote => exact .mono completeTask_transitions fun _ h => effect_of_movesAmong h
  | setStatus id status force reason comment => exact .mono setStatus_transitions fun _ h => effect_of_movesAmong h
  | advancePipeline id position => exact .mono advancePipeline_transitions fun _ h => effect_of_movesAmong h
  | closePipelineStage id stageIndex instanceName next =>
    exact .mono closePipelineStage_transitions fun _ h => effect_of_movesAmong h
  | bulkSetStatus ids status =>
    exact .mono bulkSetStatus_transitions fun _ ⟨_, h⟩ => effect_of_movesAmong h
  | setPriority id priority =>
    refine .lift (.andThen fun _ _ => .ite (fun _ => .pure fun _ => .spared .nil) fun _ => .pure fun _ => ?_)
    exact .spared (.cons (fun _ => rfl) .nil)

end TaskCommands
end

structure Carries (events wider : List Event) : Prop where
  spares : ∀ id, Spares events id → Spares wider id
  after : ∀ id row, lifecycleAfter wider id row = lifecycleAfter events id row
  tasks : ∀ event, .task event ∈ events → .task event ∈ wider
  documents : ∀ event, .document event ∈ events → .document event ∈ wider
  ended : ∀ id, EndsIn wider id → EndsIn events id

section

variable {events wider widest first last : List Event}

theorem Carries.trans (h : Carries events wider) (h' : Carries wider widest) : Carries events widest :=
  ⟨fun id hSpares => h'.spares id (h.spares id hSpares), fun id row => (h'.after id row).trans (h.after id row),
    fun event hMem => h'.tasks event (h.tasks event hMem),
    fun event hMem => h'.documents event (h.documents event hMem), fun id hEnds => h.ended id (h'.ended id hEnds)⟩

theorem Carries.surround (hFirst : SparesAll first) (hLast : SparesAll last) :
    Carries events (first ++ events ++ last) := by
  refine ⟨fun id hSpares => ((hFirst id).append hSpares).append (hLast id), fun id row => ?_,
    fun event hMem => ?_, fun event hMem => ?_, fun id hEnds => ?_⟩
  · rw [lifecycleAfter_append, lifecycleAfter_append, (hFirst id).after, (hLast id).after]
  · exact mem_append_left _ (mem_append_right _ hMem)
  · exact mem_append_left _ (mem_append_right _ hMem)
  · have hFirstTwo := (EndsIn.append_iff.mp hEnds).resolve_right (hLast id).not_endsIn
    exact (EndsIn.append_iff.mp hFirstTwo).resolve_left (hFirst id).not_endsIn

theorem Carries.authenticated (caller : Caller) (events : List Event) :
    Carries events (events.map (Handler.authenticated caller)) := by
  have hSame : ∀ event id row, (Handler.authenticated caller event).lifecycle id row = event.lifecycle id row := by
    intro event id row
    unfold Handler.authenticated
    split <;> rfl
  refine ⟨fun id hSpares => ?_, fun id row => lifecycleAfter_map fun event row => hSame event id row,
    fun event hMem => mem_map.mpr ⟨_, hMem, rfl⟩, fun event hMem => mem_map.mpr ⟨_, hMem, rfl⟩,
    fun id ⟨event, hMem, hEnded⟩ => ?_⟩
  · refine forall_mem_map.mpr fun event hMem row => ?_
    rw [hSame]
    exact hSpares event hMem row
  · obtain ⟨built, hBuilt, rfl⟩ := mem_map.mp hMem
    refine ⟨built, hBuilt, Eq.trans ?_ hEnded⟩
    unfold Handler.authenticated
    split <;> rfl

variable {id : TaskId} {toStatus : Status}

variable {db : Database}

theorem closeTaskDocuments_document {instant : Timestamp} (h : event ∈ TaskCommands.closeTaskDocuments db id toStatus instant) :
    ∃ closing, event = .document closing := by
  unfold TaskCommands.closeTaskDocuments at h
  dsimp only at h
  split at h
  · obtain ⟨doc, _, rfl⟩ := mem_map.mp h
    exact ⟨_, rfl⟩
  · obtain ⟨doc, _, rfl⟩ := mem_map.mp h
    exact ⟨_, rfl⟩
  · exact absurd h not_mem_nil

theorem MovedTo.carried {task : Task}
    (h : MovedTo db events id task toStatus) (hCarries : Carries events wider) :
    MovedTo db wider id task toStatus := by
  refine ⟨h.found, h.differs, fun closed => ?_, hCarries.tasks _ h.changed, fun hFrom hTo => ?_, ?_,
    fun hEnds => ?_⟩
  · rw [hCarries.after]
    exact h.effect closed
  · obtain ⟨actor, instant, hMem⟩ := h.closes hFrom hTo
    exact ⟨actor, instant, hCarries.tasks _ hMem⟩
  · obtain ⟨instant, hAll⟩ := h.documents
    refine ⟨instant, fun event hMem => ?_⟩
    obtain ⟨closing, rfl⟩ := closeTaskDocuments_document hMem
    exact hCarries.documents closing (hAll _ hMem)
  · obtain ⟨hTo, hFrom⟩ := h.ends (hCarries.ended id hEnds)
    exact ⟨hTo, hFrom.imp_right fun ⟨completedAt, note, hMem⟩ => ⟨completedAt, note, hCarries.tasks _ hMem⟩⟩

theorem Effect.carried {command : Command} (h : Effect command db events id)
    (hCarries : Carries events wider) : Effect command db wider id := by
  cases h with
  | spared h => exact .spared (hCarries.spares id h)
  | moved task toStatus h => exact .moved task toStatus (h.carried hCarries)
  | deleted task hFound hCommand hRow hDeleted hFree =>
    exact .deleted task hFound hCommand (fun row => (hCarries.after id row).trans (hRow row))
      (hCarries.tasks _ hDeleted) hFree
  | patched status hCommand hRow hUnended =>
    exact .patched status hCommand (fun row => (hCarries.after id row).trans (hRow row))
      fun hEnds => hUnended (hCarries.ended id hEnds)

end

namespace Handler

variable {config : Config} {db : Database} {env : Env} {caller : Caller} {claimed : Actor} {command : Command}
  {batch : List Event} {relations : Relations} {trail : GateStage.Trail} {persisted : List EventEnvelope}
  {appended : Database}

variable {events : List Event}

theorem sparesAll_of_isAudit (h : ∀ event ∈ events, event.isAudit = true) : SparesAll events := by
  intro id event hMem row
  have hAudit := h event hMem
  cases event with
  | audit event => rfl
  | _ => cases hAudit

theorem sparesAll_of_isRelease (h : ∀ event ∈ events, IsRelease event) : SparesAll events := by
  intro id event hMem row
  obtain ⟨agentId, taskId, claimId, rfl⟩ := h event hMem
  rfl

theorem withProvenance_of_not_takesIn {envelopes : List EventEnvelope} (h : command.takesIn = false) :
    withProvenance command envelopes = envelopes := by
  unfold withProvenance
  split
  · cases h
  · cases h
  · rfl

variable (h : Accepted config env caller command claimed db batch relations trail persisted appended)

include h in
theorem Accepted.surrounded (hTakesIn : command.takesIn = false) :
    ∃ first last, persisted.map payload = first ++ batch ++ last ∧
      (∀ event ∈ first, event.isAudit = true) ∧
      ∀ event ∈ last, event.isAudit = true ∨ IsRelease event := by
  obtain ⟨runs, agentClaims, owners, released, hAppend⟩ := persist_ok h.stored
  rw [withProvenance_of_not_takesIn hTakesIn] at hAppend
  refine ⟨trail.audit.map .audit, trail.metrics.map .audit ++ (AgentClaimRepo.releasedEvents (env.part 3)
    (attributedActor caller command claimed) released).map payload, ?_, ?_, ?_⟩
  · rw [(appendBatch_ok hAppend).1, map_append, envelopesOf_payload, GateStage.Trail.surround]
    simp only [append_assoc]
  · intro event hMem
    obtain ⟨audit, _, rfl⟩ := mem_map.mp hMem
    rfl
  · intro event hMem
    rcases mem_append.mp hMem with hMetric | hRelease
    · obtain ⟨metric, _, rfl⟩ := mem_map.mp hMetric
      exact .inl rfl
    · obtain ⟨envelope, hEnvelope, rfl⟩ := mem_map.mp hRelease
      exact .inr (releasedEvents_payload hEnvelope)

include h in
theorem Accepted.carries (hTakesIn : command.takesIn = false) : Carries batch (persisted.map payload) := by
  obtain ⟨first, last, hPayloads, hFirst, hLast⟩ := h.surrounded hTakesIn
  rw [hPayloads]
  refine .surround (sparesAll_of_isAudit hFirst) fun id event hMem => ?_
  rcases hLast event hMem with hAudit | hRelease
  · exact sparesAll_of_isAudit (fun other hOther => mem_singleton.mp hOther ▸ hAudit) id event
      (mem_singleton_self event)
  · exact sparesAll_of_isRelease (fun other hOther => mem_singleton.mp hOther ▸ hRelease) id event
      (mem_singleton_self event)

include h in
theorem Accepted.spares (hTakesIn : command.takesIn = false) (hAbout : command.isAboutTasks = false) (id : TaskId) :
    Spares (persisted.map payload) id := by
  refine (h.carries hTakesIn).spares id fun event hMem row => ?_
  obtain ⟨warnings, hBuilt⟩ := h.built
  have hStill : NoTransitions batch := draft_noTransitions hAbout _ _ _ hBuilt
  have hNoPatch : ∀ id status, ¬command.patchesStatus id (some status) := by
    intro id status hPatches
    cases command with
    | task command => cases hAbout
    | _ => exact hPatches
  exact (h.sanctioned event hMem).spares hTakesIn (hStill event hMem) hNoPatch id row

include h in
theorem Accepted.effect (hTakesIn : command.takesIn = false) (id : TaskId) :
    Effect command db (persisted.map payload) id := by
  cases hAbout : command.isAboutTasks with
  | false => exact .spared (h.spares hTakesIn hAbout id)
  | true =>
    cases command with
    | task command =>
      obtain ⟨built, hBuilt, rfl⟩ := h.of_task
      refine (TaskCommands.buildEvents_effect hTakesIn _ _ _ hBuilt id).carried (.trans ?_ (h.carries hTakesIn))
      have hClosing : Carries (built.map (authenticated caller)) ([] ++ built.map (authenticated caller) ++
          (Reconciliation.planReconciliations db (built.map (authenticated caller))).map .plan) :=
        .surround (fun _ => .nil) (.map fun _ _ _ _ => rfl)
      exact (Carries.authenticated caller built).trans hClosing
    | _ => cases hAbout

end Handler
end Daruma
