import Daruma.Core.AcceptedBatches
import Daruma.Core.BatchLifecycles
import Daruma.Storage.ClaimSteps

/-! What is held on tasks, and what the builders of transitions record: each moves the tasks that
it is about from the status they have, closes what hangs off a task that ends, and leaves every
other task alone. -/
namespace Daruma

open List

def Event.endedTask : Event → Option TaskId
  | .task (.taskClosed taskId ..) | .task (.taskDeleted taskId) => some taskId
  | _ => none

def EndsIn (events : List Event) (id : TaskId) : Prop := ∃ event ∈ events, event.endedTask = some id

theorem EndsIn.append_iff {first second : List Event} {id : TaskId} :
    EndsIn (first ++ second) id ↔ EndsIn first id ∨ EndsIn second id := by
  simp only [EndsIn, mem_append, or_and_right, exists_or]

namespace AgentClaimRepo

theorem mem_cleanupTasks {envelopes : List EventEnvelope} {id : TaskId} :
    id ∈ cleanupTasks envelopes ↔ EndsIn (envelopes.map EventEnvelope.payload) id := by
  let note := fun (tasks : List TaskId) (envelope : EventEnvelope) => match envelope.payload with
    | .task (.taskClosed taskId _ _) | .task (.taskDeleted taskId) =>
      if taskId ∈ tasks then tasks else tasks ++ [taskId]
    | _ => tasks
  have hNote : ∀ tasks envelope, id ∈ note tasks envelope ↔
      id ∈ tasks ∨ envelope.payload.endedTask = some id := by
    intro tasks envelope
    have hAdded : ∀ taskId, id ∈ (if taskId ∈ tasks then tasks else tasks ++ [taskId]) ↔
        id ∈ tasks ∨ some taskId = some id := by
      intro taskId
      rw [Option.some.injEq]
      split
      · rename_i hIn
        exact ⟨.inl, fun h => h.elim (fun h => h) fun hSame => hSame ▸ hIn⟩
      · rw [mem_append, mem_singleton, @eq_comm _ id]
    dsimp only [note]
    split
    · rename_i taskId _ _ hPayload
      rw [hPayload]
      exact hAdded taskId
    · rename_i taskId hPayload
      rw [hPayload]
      exact hAdded taskId
    · rename_i hNotClosed hNotDeleted
      refine ⟨.inl, fun h => h.elim (fun h => h) fun hEnded => ?_⟩
      unfold Event.endedTask at hEnded
      split at hEnded
      · rename_i hPayload
        exact absurd hPayload (hNotClosed _ _ _)
      · rename_i hPayload
        exact absurd hPayload (hNotDeleted _)
      · cases hEnded
  have hFold : ∀ tasks, id ∈ envelopes.foldl note tasks ↔
      id ∈ tasks ∨ EndsIn (envelopes.map EventEnvelope.payload) id := by
    induction envelopes with
    | nil => exact fun tasks => ⟨.inl, fun h => h.elim (fun h => h) fun ⟨_, hMem, _⟩ => absurd hMem not_mem_nil⟩
    | cons envelope rest ih =>
      intro tasks
      rw [foldl_cons, ih, hNote, or_assoc]
      simp only [EndsIn, map_cons, mem_cons, exists_eq_or_imp]
  exact (hFold []).trans (or_iff_right not_mem_nil)

theorem taskId_of_released {tasks : List TaskId} {claims : AgentClaims} {claim : AgentClaim}
    (h : claim ∈ (releaseTasks claims tasks).2) : claim.taskId ∈ tasks := by
  induction tasks generalizing claims with
  | nil => exact absurd h not_mem_nil
  | cons taskId rest ih =>
    rcases mem_append.mp h with hFirst | hRest
    · have hTask := (mem_filter.mp (selected_of_released hFirst)).2
      exact of_decide_eq_true hTask ▸ mem_cons_self
    · exact mem_cons_of_mem _ (ih hRest)

end AgentClaimRepo

/-- Claims and leases are only removed: claims only on some tasks, leases only on
others. -/
structure OnlyFrees (unclaimed unleased : TaskId → Prop) (before after : Database) : Prop where
  claims : ∀ row ∈ after.agentClaims, row ∈ before.agentClaims
  claimsKept : ∀ row ∈ before.agentClaims, ¬unclaimed row.taskId → row ∈ after.agentClaims
  leases : ∀ row ∈ after.workLeases, row ∈ before.workLeases
  leasesKept : ∀ row ∈ before.workLeases, ¬unleased row.taskId → row ∈ after.workLeases

namespace OnlyFrees

variable {unclaimed unleased : TaskId → Prop}

theorem refl (db : Database) : OnlyFrees unclaimed unleased db db :=
  ⟨fun _ h => h, fun _ h _ => h, fun _ h => h, fun _ h _ => h⟩

theorem trans {first second third : Database} (h : OnlyFrees unclaimed unleased first second)
    (h' : OnlyFrees unclaimed unleased second third) : OnlyFrees unclaimed unleased first third :=
  ⟨fun row hRow => h.claims row (h'.claims row hRow),
    fun row hRow hFree => h'.claimsKept row (h.claimsKept row hRow hFree) hFree,
    fun row hRow => h.leases row (h'.leases row hRow),
    fun row hRow hFree => h'.leasesKept row (h.leasesKept row hRow hFree) hFree⟩

theorem of_eq {before after : Database} (hClaims : after.agentClaims = before.agentClaims)
    (hLeases : after.workLeases = before.workLeases) : OnlyFrees unclaimed unleased before after := by
  refine ⟨fun row hRow => ?_, fun row hRow _ => ?_, fun row hRow => ?_, fun row hRow _ => ?_⟩
  · exact hClaims ▸ hRow
  · exact hClaims.symm ▸ hRow
  · exact hLeases ▸ hRow
  · exact hLeases.symm ▸ hRow

end OnlyFrees

def Event.OnlyFrees (unclaimed unleased : TaskId → Prop) (event : Event) : Prop :=
  match event with
  | .lease _ => False
  | .claim (.agentReleased _ taskId (some _)) => unclaimed taskId
  | .claim _ => False
  | .task (.taskClosed taskId ..) => unleased taskId
  | _ => True

section

variable {unclaimed unleased : TaskId → Prop} {envelope : EventEnvelope}

theorem AgentClaimRepo.applyEvent_onlyFrees {db db' : Database} {now : Timestamp}
    (hEvent : envelope.payload.OnlyFrees unclaimed unleased)
    (h : AgentClaimRepo.applyEvent db now envelope = .ok db') : OnlyFrees unclaimed unleased db db' := by
  unfold AgentClaimRepo.applyEvent at h
  split at h
  · rename_i hPayload
    rw [hPayload] at hEvent
    exact absurd hEvent not_false
  · rename_i hPayload
    rw [hPayload] at hEvent
    exact absurd hEvent not_false
  · rename_i agentId taskId claimId hPayload
    rw [hPayload] at hEvent
    cases h
    refine ⟨fun row hRow => (AgentClaimRepo.mem_deleteExact.mp hRow).1, fun row hRow hFree => ?_, fun _ h => h,
      fun _ h _ => h⟩
    refine AgentClaimRepo.mem_deleteExact.mpr ⟨hRow, fun ⟨hKey, _⟩ => hFree ?_⟩
    have hTask : row.taskId = taskId := congrArg Prod.snd hKey
    exact hTask ▸ hEvent
  · rename_i hPayload
    rw [hPayload] at hEvent
    exact absurd hEvent not_false
  · cases h
    exact .refl db

theorem WorkLeaseRepo.applyEvent_onlyFrees {db : Database} (hEvent : envelope.payload.OnlyFrees unclaimed unleased) :
    OnlyFrees unclaimed unleased db (WorkLeaseRepo.applyEvent db envelope) := by
  unfold WorkLeaseRepo.applyEvent
  split
  · rename_i hPayload
    rw [hPayload] at hEvent
    exact absurd hEvent not_false
  · rename_i hPayload
    rw [hPayload] at hEvent
    exact absurd hEvent not_false
  · rename_i hPayload
    rw [hPayload] at hEvent
    exact absurd hEvent not_false
  · rename_i taskId _ _ hPayload
    rw [hPayload] at hEvent
    refine ⟨fun _ h => h, fun _ h _ => h, fun row hRow => (KeyedTable.mem_filter.mp hRow).1, fun row hRow hFree => ?_⟩
    refine KeyedTable.mem_filter.mpr ⟨hRow, decide_eq_true fun hTask => hFree (hTask ▸ hEvent)⟩
  · exact .refl db

end

open KeyedTable List

open Stateful (Yields)

/-- The events leave the lifecycle of a task alone, one by one. -/
def Spares (events : List Event) (id : TaskId) : Prop :=
  ∀ event ∈ events, ∀ row, event.lifecycle id row = row

/-- The events leave every lifecycle alone. -/
def SparesAll (events : List Event) : Prop := ∀ id, Spares events id

section

variable {first second : List Event} {event : Event} {id : TaskId}

theorem Spares.nil : Spares [] id := fun _ h => absurd h not_mem_nil

theorem Spares.cons (h : ∀ row, event.lifecycle id row = row) (hRest : Spares first id) :
    Spares (event :: first) id :=
  forall_mem_cons.mpr ⟨h, hRest⟩

theorem Spares.append (h : Spares first id) (h' : Spares second id) : Spares (first ++ second) id :=
  forall_mem_append.mpr ⟨h, h'⟩

theorem Spares.after (h : Spares first id) (row : Option Lifecycle) : lifecycleAfter first id row = row :=
  lifecycleAfter_eq_self h

theorem SparesAll.append (h : SparesAll first) (h' : SparesAll second) : SparesAll (first ++ second) :=
  fun id => (h id).append (h' id)

theorem SparesAll.map {Item : Type} {f : Item → Event} {items : List Item}
    (h : ∀ item ∈ items, ∀ id row, (f item).lifecycle id row = row) : SparesAll (items.map f) := by
  intro id event hMem
  obtain ⟨item, hItem, rfl⟩ := mem_map.mp hMem
  exact h item hItem id

theorem Spares.not_closed (h : Spares first id) {actor : Actor} {instant : Timestamp} :
    .task (.taskClosed id actor instant) ∉ first := by
  intro hMem
  have hSame := h _ hMem (some (.inbox, false))
  simp [Event.lifecycle, TaskEvent.lifecycle] at hSame

theorem Spares.not_endsIn (h : Spares first id) : ¬EndsIn first id := by
  rintro ⟨event, hMem, hEnded⟩
  unfold Event.endedTask at hEnded
  split at hEnded
  · cases hEnded
    exact h.not_closed hMem
  · cases hEnded
    have hSame := h _ hMem (some (.inbox, false))
    simp [Event.lifecycle, TaskEvent.lifecycle] at hSame
  · cases hEnded

end

structure MovedTo (db : Database) (events : List Event) (id : TaskId) (task : Task) (toStatus : Status) :
    Prop where
  found : db.tasks.find? id = some task
  differs : task.status ≠ toStatus
  /-- A settled task stays settled. -/
  effect : ∀ closed, ∃ closed', lifecycleAfter events id (some (task.status, closed)) = some (toStatus, closed') ∧
    (closed = task.status.isTerminal → closed' = toStatus.isTerminal)
  changed : .task (.taskStatusChanged id task.status toStatus) ∈ events
  closes : task.status.isTerminal = false → toStatus.isTerminal = true →
    ∃ actor instant, .task (.taskClosed id actor instant) ∈ events
  documents : ∃ instant, ∀ event ∈ TaskCommands.closeTaskDocuments db id toStatus instant, event ∈ events
  /-- Only a completion ends a task that had ended already. -/
  ends : EndsIn events id → toStatus.isTerminal = true ∧ (task.status.isTerminal = false ∨
    ∃ completedAt completionNote, .task (.taskCompleted id completedAt completionNote) ∈ events)

section

variable {db : Database} {first second : List Event} {id : TaskId} {task : Task} {toStatus : Status}

theorem MovedTo.after (h : MovedTo db second id task toStatus) (hSpares : Spares first id) :
    MovedTo db (first ++ second) id task toStatus := by
  refine ⟨h.found, h.differs, fun closed => ?_, mem_append_right _ h.changed, fun hFrom hTo => ?_, ?_,
    fun hEnds => ?_⟩
  · rw [lifecycleAfter_append, hSpares.after]
    exact h.effect closed
  · obtain ⟨actor, instant, hMem⟩ := h.closes hFrom hTo
    exact ⟨actor, instant, mem_append_right _ hMem⟩
  · obtain ⟨instant, hAll⟩ := h.documents
    exact ⟨instant, fun event hMem => mem_append_right _ (hAll event hMem)⟩
  · obtain ⟨hTo, hFrom⟩ := h.ends ((EndsIn.append_iff.mp hEnds).resolve_left hSpares.not_endsIn)
    exact ⟨hTo, hFrom.imp_right fun ⟨completedAt, note, hMem⟩ => ⟨completedAt, note, mem_append_right _ hMem⟩⟩

theorem MovedTo.before (h : MovedTo db first id task toStatus) (hSpares : Spares second id) :
    MovedTo db (first ++ second) id task toStatus := by
  refine ⟨h.found, h.differs, fun closed => ?_, mem_append_left _ h.changed, fun hFrom hTo => ?_, ?_,
    fun hEnds => ?_⟩
  · obtain ⟨closed', hEffect, hSettled⟩ := h.effect closed
    refine ⟨closed', ?_, hSettled⟩
    rw [lifecycleAfter_append, hEffect, hSpares.after]
  · obtain ⟨actor, instant, hMem⟩ := h.closes hFrom hTo
    exact ⟨actor, instant, mem_append_left _ hMem⟩
  · obtain ⟨instant, hAll⟩ := h.documents
    exact ⟨instant, fun event hMem => mem_append_left _ (hAll event hMem)⟩
  · obtain ⟨hTo, hFrom⟩ := h.ends ((EndsIn.append_iff.mp hEnds).resolve_right hSpares.not_endsIn)
    exact ⟨hTo, hFrom.imp_right fun ⟨completedAt, note, hMem⟩ => ⟨completedAt, note, mem_append_left _ hMem⟩⟩

end

def MovesAmong (db : Database) (ids : List TaskId) (events : List Event) : Prop :=
  ∀ id, Spares events id ∨ (id ∈ ids ∧ ∃ task toStatus, MovedTo db events id task toStatus)

section

variable {db : Database} {ids ids' : List TaskId} {first second : List Event}

theorem MovesAmong.append (h : MovesAmong db ids first) (h' : MovesAmong db ids' second)
    (hDisjoint : ∀ id ∈ ids, id ∉ ids') : MovesAmong db (ids ++ ids') (first ++ second) := by
  intro id
  rcases h id with hFirst | ⟨hIn, task, toStatus, hFirst⟩ <;>
    rcases h' id with hSecond | ⟨hIn', task', toStatus', hSecond⟩
  · exact .inl (hFirst.append hSecond)
  · exact .inr ⟨mem_append_right _ hIn', task', toStatus', hSecond.after hFirst⟩
  · exact .inr ⟨mem_append_left _ hIn, task, toStatus, hFirst.before hSecond⟩
  · exact absurd hIn' (hDisjoint id hIn)

theorem MovesAmong.appendSparing (h : MovesAmong db ids first) (h' : SparesAll second) :
    MovesAmong db ids (first ++ second) := by
  intro id
  rcases h id with hFirst | ⟨hIn, task, toStatus, hFirst⟩
  · exact .inl (hFirst.append (h' id))
  · exact .inr ⟨hIn, task, toStatus, hFirst.before (h' id)⟩

theorem MovesAmong.consSparing {event : Event} (h : MovesAmong db ids first)
    (h' : ∀ id row, event.lifecycle id row = row) : MovesAmong db ids (event :: first) := by
  intro id
  have hSpares : Spares [event] id := Spares.cons (h' id) .nil
  rcases h id with hFirst | ⟨hIn, task, toStatus, hFirst⟩
  · exact .inl (hSpares.append hFirst)
  · exact .inr ⟨hIn, task, toStatus, hFirst.after hSpares⟩

end

namespace TaskCommands

variable {config : Config} {db : Database} {env : Env} {actor : Actor} {now : Timestamp}

theorem commentEvents_sparesAll (comment : Comment) : SparesAll (commentEvents comment) :=
  fun _ => .cons (fun _ => rfl) (.cons (fun _ => rfl) .nil)

theorem sparesAll_of_forall {events : List Event} (h : Everywhere (fun event => ∀ id row, event.lifecycle id row = row) events) :
    SparesAll events := fun id event hMem => h event hMem id

theorem releaseDownstream_sparesAll (id : TaskId) : Yields (releaseDownstream db id now) SparesAll :=
  .mono (releaseDownstream_rule (fun _ _ _ => rfl) fun _ _ _ _ _ => rfl) fun _ => sparesAll_of_forall

variable {fromStatus status : Status} {position : PipelinePosition}

variable {toStatus : Status} {id : TaskId} {task : Task} {ids : List TaskId}

theorem closureEvents_effect (closed : Bool) :
    ∃ closed', lifecycleAfter (closureEvents id fromStatus toStatus actor now) id (some (toStatus, closed)) =
        some (toStatus, closed') ∧ (closed = fromStatus.isTerminal → closed' = toStatus.isTerminal) := by
  unfold closureEvents
  cases hFrom : fromStatus.isTerminal <;> cases hTo : toStatus.isTerminal
  · exact ⟨closed, by simp, fun hSettled => hSettled⟩
  · exact ⟨true, by simp [Event.lifecycle, TaskEvent.lifecycle], fun _ => rfl⟩
  · exact ⟨false, by simp [Event.lifecycle, TaskEvent.lifecycle], fun _ => rfl⟩
  · exact ⟨closed, by simp, fun hSettled => hSettled⟩

theorem closureEvents_spares {other : TaskId} (h : id ≠ other) :
    Spares (closureEvents id fromStatus toStatus actor now) other := by
  unfold closureEvents
  split
  · exact .cons (fun _ => if_neg h) .nil
  · split
    · exact .cons (fun _ => if_neg h) .nil
    · exact .nil

theorem closureEvents_ends (h : EndsIn (closureEvents id fromStatus toStatus actor now) id) :
    toStatus.isTerminal = true ∧ (fromStatus.isTerminal = false ∨ ∃ completedAt note,
      .task (.taskCompleted id completedAt note) ∈ closureEvents id fromStatus toStatus actor now) := by
  obtain ⟨event, hMem, hEnded⟩ := h
  unfold closureEvents at hMem
  split at hMem
  · rw [mem_singleton.mp hMem] at hEnded
    cases hEnded
  · split at hMem
    · rename_i hCloses
      exact ⟨hCloses.2, .inl (Bool.eq_false_iff.mpr hCloses.1)⟩
    · exact absurd hMem not_mem_nil

theorem movesAmong_of_transition {closure released : List Event}
    (hFound : db.tasks.find? task.id = some task) (hDiffers : task.status ≠ toStatus)
    (hEffect : ∀ closed, ∃ closed', lifecycleAfter closure task.id (some (toStatus, closed)) =
      some (toStatus, closed') ∧ (closed = task.status.isTerminal → closed' = toStatus.isTerminal))
    (hCloses : task.status.isTerminal = false → toStatus.isTerminal = true →
      ∃ actor instant, .task (.taskClosed task.id actor instant) ∈ closure)
    (hOthers : ∀ other, task.id ≠ other → Spares closure other) (hReleased : SparesAll released)
    (hEnds : EndsIn closure task.id → toStatus.isTerminal = true ∧ (task.status.isTerminal = false ∨
      ∃ completedAt note, .task (.taskCompleted task.id completedAt note) ∈ closure)) :
    MovesAmong db [task.id] ([.task (.taskStatusChanged task.id task.status toStatus)] ++ closure ++ released ++
      closeTaskDocuments db task.id toStatus now) := by
  intro id
  have hDocuments : SparesAll (closeTaskDocuments db task.id toStatus now) :=
    sparesAll_of_forall (closeTaskDocuments_rule fun _ _ _ _ _ _ => rfl)
  by_cases hSame : task.id = id
  · subst hSame
    refine .inr ⟨mem_singleton_self _, task, toStatus, hFound, hDiffers, ?_, ?_, ?_, ⟨now, ?_⟩, ?_⟩
    · intro closed
      obtain ⟨closed', hAfter, hSettled⟩ := hEffect closed
      refine ⟨closed', ?_, hSettled⟩
      have hChanged : Event.lifecycle (.task (.taskStatusChanged task.id task.status toStatus)) task.id
          (some (task.status, closed)) = some (toStatus, closed) := if_pos rfl
      rw [lifecycleAfter_append, lifecycleAfter_append, lifecycleAfter_append, lifecycleAfter_cons,
        lifecycleAfter_nil, hChanged, hAfter, (hReleased task.id).after, (hDocuments task.id).after]
    · exact mem_append_left _ (mem_append_left _ (mem_append_left _ (mem_singleton_self _)))
    · intro hFrom hTo
      obtain ⟨actor, instant, hMem⟩ := hCloses hFrom hTo
      exact ⟨actor, instant, mem_append_left _ (mem_append_left _ (mem_append_right _ hMem))⟩
    · exact fun event hMem => mem_append_right _ hMem
    · intro hEnded
      have hClosure : EndsIn closure task.id := by
        rcases EndsIn.append_iff.mp hEnded with hEnded | hEnded
        · rcases EndsIn.append_iff.mp hEnded with hEnded | hEnded
          · refine (EndsIn.append_iff.mp hEnded).resolve_left fun ⟨event, hMem, hIs⟩ => ?_
            rw [mem_singleton.mp hMem] at hIs
            cases hIs
          · exact absurd hEnded (hReleased task.id).not_endsIn
        · exact absurd hEnded (hDocuments task.id).not_endsIn
      obtain ⟨hTo, hFrom⟩ := hEnds hClosure
      refine ⟨hTo, hFrom.imp_right fun ⟨completedAt, note, hMem⟩ => ⟨completedAt, note, ?_⟩⟩
      exact mem_append_left _ (mem_append_left _ (mem_append_right _ hMem))
  · have hChanged : Spares [.task (.taskStatusChanged task.id task.status toStatus)] id :=
      .cons (fun _ => if_neg hSame) .nil
    exact .inl (((hChanged.append (hOthers id hSame)).append (hReleased id)).append (hDocuments id))

theorem statusTransitionEvents_transitions (hFound : db.tasks.find? task.id = some task) :
    Yields (statusTransitionEvents db task toStatus actor now) (MovesAmong db [task.id]) := by
  refine .ite (fun _ => .pure fun id => .inl .nil) fun hDiffers => .andThen fun relations => .andThen fun _ => ?_
  have hAll : ∀ released, SparesAll released → MovesAmong db [task.id]
      ([.task (.taskStatusChanged task.id task.status toStatus)] ++
        closureEvents task.id task.status toStatus actor now ++ released ++
        closeTaskDocuments db task.id toStatus now) := by
    intro released hReleased
    refine movesAmong_of_transition hFound hDiffers closureEvents_effect (fun hFrom hTo => ?_)
      (fun other hOther => closureEvents_spares hOther) hReleased closureEvents_ends
    refine ⟨actor, now, ?_⟩
    simp [closureEvents, hFrom, hTo]
  exact .ite (fun _ => .bind (releaseDownstream_sparesAll task.id) fun _ hReleased => .pure (hAll _ hReleased))
    fun _ => .bind (.pure fun _ => .nil) fun _ hReleased => .pure (hAll _ hReleased)

theorem emitStatusTransitionEvents_transitions (hFound : db.tasks.find? task.id = some task) :
    Yields (emitStatusTransitionEvents db task toStatus actor now) (MovesAmong db [task.id]) :=
  .andThen fun _ => statusTransitionEvents_transitions hFound

theorem completeTask_transitions {completionNote : Option CompletionNote} :
    Yields (completeTask db env actor id completionNote) (MovesAmong db [id]) := by
  refine .bind (.lift requireTask_row) fun task ⟨hId, hFound⟩ => ?_
  subst hId
  refine .bind (.lift fun _ h => Outcome.ensure_eq_ok.mp h) fun _ hOpen => .andThen fun _ => .andThen fun relations =>
    .andThen fun _ => .bind (releaseDownstream_sparesAll task.id) fun released hReleased => .pure ?_
  refine movesAmong_of_transition hFound (of_decide_eq_true hOpen) (fun closed => ?_) (fun _ _ => ?_)
    (fun other hOther => ?_) hReleased fun _ => ⟨rfl, .inr ⟨_, _, mem_cons_self⟩⟩
  · exact ⟨true, by simp [Event.lifecycle, TaskEvent.lifecycle], fun _ => rfl⟩
  · exact ⟨actor, env.now, mem_cons_of_mem _ mem_cons_self⟩
  · exact .cons (fun _ => if_neg hOther) (.cons (fun _ => if_neg hOther) .nil)

theorem setStatus_transitions {comment : Option TransitionComment} :
    Yields (setStatus db env actor id status comment) (MovesAmong db [id]) := by
  refine .bind (.lift requireTask_row) fun task ⟨hId, hFound⟩ => ?_
  subst hId
  refine .andThen fun comment => .bind (emitStatusTransitionEvents_transitions hFound) fun events hEvents => ?_
  cases comment with
  | none => exact .pure hEvents
  | some body =>
    exact .ite (fun _ => .pure hEvents) fun _ => .pure (hEvents.appendSparing (commentEvents_sparesAll _))

theorem bulk_transitions {tasks : List Task}
    (hRows : ∀ task ∈ tasks, db.tasks.find? task.id = some task) (hDistinct : (tasks.map Task.id).Nodup) :
    Yields (Stateful.collect (fun task => emitStatusTransitionEvents db task toStatus actor now) tasks)
      (MovesAmong db (tasks.map Task.id)) := by
  induction tasks with
  | nil => exact .pure fun id => .inl .nil
  | cons task rest ih =>
    obtain ⟨hFirst, hRest⟩ := forall_mem_cons.mp hRows
    rw [map_cons, nodup_cons] at hDistinct
    refine .bind (emitStatusTransitionEvents_transitions hFirst) fun events hEvents =>
      .bind (ih hRest hDistinct.2) fun later hLater => .pure ?_
    refine hEvents.append hLater fun id hId => ?_
    rw [mem_singleton.mp hId]
    exact hDistinct.1

theorem dedupeIds_nodup (ids : List TaskId) : (dedupeIds ids).Nodup := by
  induction ids with
  | nil => exact nodup_nil
  | cons id rest ih => exact nodup_cons.mpr ⟨by simp, ih.filter _⟩

theorem loadTasks_rows {label : String} (hNodup : ids.Nodup) :
    Outcome.Yields (loadTasks db label ids) fun tasks =>
      (∀ task ∈ tasks, db.tasks.find? task.id = some task) ∧ (tasks.map Task.id).Nodup := by
  have hRows : ∀ task ∈ ids.filterMap db.tasks.find?, db.tasks.find? task.id = some task := by
    intro task hMem
    obtain ⟨id, _, hFound⟩ := mem_filterMap.mp hMem
    exact (key_of_find? hFound).symm ▸ hFound
  have hDistinct : ((ids.filterMap db.tasks.find?).map Task.id).Nodup := by
    induction ids with
    | nil => exact nodup_nil
    | cons id rest ih =>
      obtain ⟨hNew, hRest⟩ := nodup_cons.mp hNodup
      have hLater := ih hRest fun task hMem => hRows task (by
        rw [filterMap_cons]
        split
        · exact hMem
        · exact mem_cons_of_mem _ hMem)
      rw [filterMap_cons]
      split
      · exact hLater
      · rename_i task hFound
        refine nodup_cons.mpr ⟨fun hMem => ?_, hLater⟩
        obtain ⟨other, hOther, hSame⟩ := mem_map.mp hMem
        obtain ⟨otherId, hIn, hOtherFound⟩ := mem_filterMap.mp hOther
        have hIds : otherId = id :=
          (key_of_find? hOtherFound).symm.trans (hSame.trans (key_of_find? hFound))
        exact hNew (hIds ▸ hIn)
  unfold loadTasks
  dsimp only
  exact .ite (fun _ => .ok ⟨hRows, hDistinct⟩) fun _ => .error _

theorem bulkSetStatus_transitions :
    Yields (bulkSetStatus db env actor ids status) fun events => ∃ moved, MovesAmong db moved events := by
  refine .andThen fun _ => .bind (.lift (loadTasks_rows (dedupeIds_nodup ids))) fun tasks ⟨hRows, hDistinct⟩ => ?_
  exact .mono (bulk_transitions hRows hDistinct) fun _ hMoves => ⟨_, hMoves⟩

theorem positionEvent_lifecycle (id : TaskId) (position : PipelinePosition) (other : TaskId)
    (row : Option Lifecycle) : (positionEvent id position).lifecycle other row = row := by
  change (if id = other then row.map fun row => (TaskPatch.none.status.getD row.1, row.2) else row) = row
  split
  · cases row <;> rfl
  · rfl

theorem advancePipelineEvents_transitions (hFound : db.tasks.find? task.id = some task) :
    Yields (advancePipelineEvents db env actor task position) (MovesAmong db [task.id]) :=
  .andThen fun _ => .bind (statusTransitionEvents_transitions hFound) fun _ hMoved =>
    .pure (hMoved.consSparing (positionEvent_lifecycle _ _))

theorem advancePipeline_transitions :
    Yields (advancePipeline db env actor id position) (MovesAmong db [id]) := by
  refine .andThen fun _ => .bind (.lift pipelineTask_row) fun task ⟨hId, hFound⟩ => ?_
  subst hId
  refine .ite (fun _ => .pure fun id => .inl .nil) fun _ => ?_
  split
  · exact .lift (.error _)
  · exact advancePipelineEvents_transitions hFound

theorem closePipelineStage_transitions {stageIndex : Nat} {instanceName : String}
    {next : Option PipelinePosition} :
    Yields (closePipelineStage db env actor id stageIndex instanceName next) (MovesAmong db [id]) := by
  refine .bind (.lift pipelineTask_row) fun task ⟨hId, hFound⟩ => ?_
  subst hId
  refine .andThen fun position => .andThen fun _ => .andThen fun _ => .andThen fun closed => ?_
  obtain ⟨fanIn, closed⟩ := closed
  dsimp only
  split
  · exact .pure fun id => .inl .nil
  · exact .bind (advancePipelineEvents_transitions hFound) fun _ hMoved =>
      .pure (hMoved.consSparing (positionEvent_lifecycle _ _))
  · exact .pure fun id => .inl (.cons (positionEvent_lifecycle _ _ _) .nil)

end TaskCommands
end Daruma
