import Daruma.Core.ProjectionFrames

/-! The errors of the writes: what the log or a projection refuses, the database
refuses. -/
namespace Daruma

/-- The database refused a write. -/
def CoreError.IsStorage (e : CoreError) : Prop := ∃ detail, e = .storage detail

theorem appendBatch_refused {db : Database} {envelopes : List EventEnvelope} {e : CoreError}
    (h : appendBatch db envelopes = .error e) : e.IsStorage := by
  induction envelopes generalizing db with
  | nil => cases h
  | cons envelope rest ih =>
    unfold appendBatch at h
    cases hAppend : appendOn db envelope with
    | error e' =>
      rw [hAppend] at h
      cases h
      unfold appendOn at hAppend
      split at hAppend
      · cases hAppend
        exact ⟨_, rfl⟩
      · split at hAppend
        · cases hAppend
        · cases hAppend
          exact ⟨_, rfl⟩
    | ok appended =>
      rw [hAppend] at h
      dsimp only at h
      cases hRest : appendBatch appended.2 rest with
      | error e' =>
        rw [hRest] at h
        cases h
        exact ih hRest
      | ok later =>
        rw [hRest] at h
        cases h

namespace TaskRepo

variable {tasks : Tasks} {env : Env} {envelope : EventEnvelope} {e : CoreError}

theorem upsertTask_refused {task : Task} (h : upsertTask tasks task = .error e) : e.IsStorage := by
  unfold upsertTask at h
  split at h
  · cases h
    exact ⟨_, rfl⟩
  · cases h

theorem updateTask_refused {id : TaskId} {f : Task → Task} (h : updateTask tasks id f = .error e) : e.IsStorage := by
  unfold updateTask at h
  split at h
  · cases h
  · exact upsertTask_refused h

theorem insertSubtasks_refused {subtasks : List NewTask} {n : Nat}
    (h : insertSubtasks env envelope tasks n subtasks = .error e) : e.IsStorage := by
  induction subtasks generalizing tasks n with
  | nil => cases h
  | cons new rest ih =>
    unfold insertSubtasks at h
    split at h
    · rename_i hFirst
      cases h
      exact upsertTask_refused hFirst
    · exact ih h

theorem applyTaskEvent_refused {event : TaskEvent} (h : applyTaskEvent tasks env envelope event = .error e) :
    e.IsStorage := by
  cases event with
  | taskCreated new => exact upsertTask_refused h
  | taskUpdated taskId patch =>
    dsimp only [applyTaskEvent] at h
    split at h
    · rename_i hUpdated
      cases h
      exact updateTask_refused hUpdated
    · split at h
      · cases h
      · cases h
  | taskStatusChanged | taskPriorityChanged | taskCompleted | taskReopened | taskClosed => exact updateTask_refused h
  | taskSplitGenerated taskId subtasks => exact insertSubtasks_refused h
  | _ => cases h

end TaskRepo

variable {db db' : Database} {env : Env} {envelope : EventEnvelope} {e : CoreError}

theorem RunNoteRepo.applyEvent_refused (h : applyEvent db envelope = .error e) : e.IsStorage := by
  unfold applyEvent at h
  split at h
  · split at h
    · cases h
    · cases h
      exact ⟨_, rfl⟩
  · cases h

theorem AgentClaimRepo.acquireUntil_refused {now expiresAt : Timestamp} {agentId : AgentId} {taskId : TaskId}
    {claimId : ClaimId} (h : acquireUntil db now agentId taskId claimId expiresAt = .error e) : e.IsStorage := by
  unfold acquireUntil at h
  split at h
  · cases h
  · split at h
    · split at h
      · cases h
      · cases h
    · dsimp only at h
      split at h
      · cases h
        exact ⟨_, rfl⟩
      · cases h

theorem AgentClaimRepo.applyEvent_refused {now : Timestamp} (h : applyEvent db now envelope = .error e) :
    e.IsStorage := by
  unfold applyEvent at h
  split at h
  case h_1 => exact acquireUntil_refused h
  all_goals cases h

theorem HandoffRepo.applyEvent_refused {handoffs : Handoffs} (h : applyEvent handoffs envelope = .error e) :
    e.IsStorage := by
  unfold applyEvent at h
  split at h
  case h_1 =>
    unfold upsert at h
    split at h
    · cases h
    · split at h
      · cases h
        exact ⟨_, rfl⟩
      · cases h
  all_goals cases h

theorem RuleRepo.applyEvent_refused {rules : Rules} (h : applyEvent rules envelope = .error e) : e.IsStorage := by
  have hUpsert : ∀ rule, upsert rules rule = .error e → e.IsStorage := by
    intro rule hRefused
    unfold upsert at hRefused
    extract_lets row at hRefused
    by_cases hTaken : keyTaken rules row = true
    · rw [if_pos hTaken] at hRefused
      cases hRefused
      exact ⟨_, rfl⟩
    · rw [if_neg hTaken] at hRefused
      cases hRefused
  unfold applyEvent at h
  split at h
  · exact hUpsert _ h
  · exact hUpsert _ h
  all_goals cases h

theorem ArtifactRepo.addRelation_refused {relation : ArtifactRelation} (h : addRelation db relation = .error e) :
    e.IsStorage := by
  unfold addRelation at h
  dsimp only at h
  split at h
  · cases h
  · split at h
    · cases h
    · cases h
      exact ⟨_, rfl⟩

theorem ArtifactRepo.applyEvent_refused (h : applyEvent db env envelope = .error e) : e.IsStorage := by
  unfold applyEvent at h
  split at h
  · rename_i event _
    cases event with
    | artifactRelationAdded relation => exact addRelation_refused h
    | roleArtifactStatusChanged | artifactChanged | artifactWriteCommitted =>
      dsimp only [applyArtifactEvent] at h
      split at h
      · cases h
      · cases h
    | _ => cases h
  · cases h

namespace Projections

theorem projectors_refused {step : Database → Result Database} (hStep : step ∈ projectors env envelope)
    (h : step db = .error e) : e.IsStorage := by
  simp only [projectors, List.mem_cons, List.not_mem_nil, or_false] at hStep
  rcases hStep with rfl | rfl | rfl | rfl | rfl | rfl | rfl | rfl | rfl | rfl | rfl | rfl | rfl
  · unfold tasks TaskRepo.applyEvent at h
    rcases Outcome.bind_eq_error.mp h with hApplied | ⟨written, _, hWritten⟩
    · split at hApplied
      · exact TaskRepo.applyTaskEvent_refused hApplied
      · cases hApplied
    · cases hWritten
  · cases h
  · cases h
  · cases h
  · exact RunNoteRepo.applyEvent_refused h
  · cases h
  · exact AgentClaimRepo.applyEvent_refused h
  · cases h
  · cases h
  · rcases Outcome.bind_eq_error.mp h with hApplied | ⟨written, _, hWritten⟩
    · exact HandoffRepo.applyEvent_refused hApplied
    · cases hWritten
  · rcases Outcome.bind_eq_error.mp h with hApplied | ⟨written, _, hWritten⟩
    · exact RuleRepo.applyEvent_refused hApplied
    · cases hWritten
  · cases h
  · exact ArtifactRepo.applyEvent_refused h

theorem applyEvents_refused {envelopes : List EventEnvelope} (h : applyEvents env envelopes db = (.error e, db')) :
    e.IsStorage := by
  obtain ⟨step, hStep, middle, hRefused⟩ := Stateful.inTurn_error h
  obtain ⟨envelope, _, hProjector⟩ := List.mem_flatMap.mp hStep
  exact projectors_refused hProjector hRefused

end Projections

end Daruma
