import Daruma.Core.PlanClosures
import Daruma.Core.PlanStanding
import Daruma.Core.RunHistory

/-! The overlay of a batch against the database after it: what the reconciliation
reads before the events are stored is what they leave. -/
namespace Daruma

open List

namespace AgentClaimRepo

variable {db db' : Database} {status : RunStatus} {reason : String} {endedAt : Timestamp}

theorem standing_modify {id other : RunId} {f : Run → Run} (hId : ∀ run, (f run).id = run.id)
    (hEnded : ∀ run, (f run).standing = (run.planId, false)) : ((db.runs.modify id f).find? other).map Run.standing =
      if id = other then (db.standing.run other).map fun run => (run.1, false) else db.standing.run other := by
  rw [KeyedTable.find?_modify _ _ _ _ hId]
  split
  · change _ = ((db.runs.find? other).map Run.standing).map _
    rw [Option.map_map, Option.map_map]
    exact congrArg (Option.map · (db.runs.find? other)) (funext hEnded)
  · rfl

theorem endRuns_cons {first : Run} {rest : List Run} (hEnded : status ≠ .active) : ∃ middle : Database,
    (endRuns db status reason endedAt (first :: rest)).1 = (endRuns middle status reason endedAt rest).1 ∧
      ∀ id, middle.standing.run id =
        if first.id = id then (db.standing.run id).map fun run => (run.1, false) else db.standing.run id := by
  refine ⟨_, rfl, fun id => standing_modify (fun _ => ?_) fun run => ?_⟩
  · rfl
  · exact congrArg (Prod.mk run.planId) (decide_eq_false hEnded)

theorem endRuns_standing {ended : List Run} (hEnded : status ≠ .active) (id : RunId) :
    (endRuns db status reason endedAt ended).1.standing.run id = db.standing.run id ∨
      (∃ run ∈ ended, run.id = id) ∧ (endRuns db status reason endedAt ended).1.standing.run id =
        (db.standing.run id).map fun run => (run.1, false) := by
  induction ended generalizing db with
  | nil => exact .inl rfl
  | cons first rest ih =>
    obtain ⟨middle, hLater, hFirst⟩ := endRuns_cons hEnded
    rw [hLater]
    rcases ih with hSame | ⟨⟨run, hRun, hIs⟩, hAfter⟩
    · rw [hSame, hFirst]
      split
      · rename_i hIs
        exact .inr ⟨⟨first, mem_cons_self, hIs⟩, rfl⟩
      · exact .inl rfl
    · refine .inr ⟨⟨run, mem_cons_of_mem _ hRun, hIs⟩, ?_⟩
      rw [hAfter, hFirst]
      split
      · rw [Option.map_map]
        rfl
      · rfl

theorem recordRunTerminal_standing {env : Env} {actor : Actor} {requester : AgentId} {isAdmin : Bool}
    {envelopes stored : List EventEnvelope}
    (h : recordRunTerminal db env actor requester isAdmin envelopes = .ok (stored, db')) (id : RunId) :
    db'.standing.run id = db.standing.run id ∨ ∃ run status instant reason,
      terminalRun envelopes = some (id, status, instant, reason) ∧ db.runs.find? id = some run ∧ run.status = .active ∧
        db'.standing.run id = some (run.planId, false) := by
  unfold recordRunTerminal at h
  split at h
  · cases h
  rename_i runId status instant reason hTerminal
  split at h
  · cases h
  rename_i run hFound
  dsimp only at h
  split at h
  · cases h
  rename_i hActive
  split at h
  · cases h
  split at h
  · cases h
  obtain ⟨_, _, rfl⟩ := (appendBatch_ok h).2.2
  have hEnded : status ≠ .active := by
    rcases terminalRun_cases hTerminal with ⟨rfl, _⟩ | ⟨rfl, _⟩ <;> decide
  have hRetired : ∀ planId : PlanId, (planId, decide (status = .active)) = (planId, false) :=
    fun planId => congrArg (Prod.mk planId) (decide_eq_false hEnded)
  by_cases hIs : runId = id
  · subst hIs
    refine .inr ⟨run, status, instant, reason, hTerminal, hFound, not_not.mp hActive, ?_⟩
    refine (standing_modify ?_ ?_).trans ((if_pos rfl).trans ?_)
    · exact fun _ => rfl
    · exact fun run => hRetired run.planId
    · change ((db.runs.find? runId).map Run.standing).map _ = _
      rw [hFound]
      rfl
  · refine .inl ((standing_modify ?_ ?_).trans (if_neg hIs))
    · exact fun _ => rfl
    · exact fun run => hRetired run.planId

end AgentClaimRepo

namespace Handler

variable {config : Config} {env : Env} {caller : Caller} {command : Command} {claimed : Actor} {db : Database}
  {batch : List Event} {relations : Relations} {trail : GateStage.Trail} {persisted : List EventEnvelope}
  {appended : Database}

structure Retires (command : Command) (batch : List Event) (db appended : Database) (id : RunId) : Prop where
  intro ::
  retires : ∃ run, db.runs.find? id = some run ∧ run.status = .active ∧
    appended.standing.run id = some (run.planId, false) ∧
    ((∃ event ∈ batch, event.endedRun = some id) ∨ (endsPlan command = true ∧ command.endedPlan = some run.planId))

theorem Accepted.stored_run
    (h : Accepted config env caller command claimed db batch relations trail persisted appended) (id : RunId) :
    appended.standing.run id = db.standing.run id ∨ Retires command batch db appended id := by
  have hSame : ∀ {before : Database} {envelopes : List EventEnvelope},
      appendBatch before envelopes = .ok (persisted, appended) → before.runs = db.runs →
      appended.standing.run id = db.standing.run id := by
    intro before envelopes hAppend hRuns
    obtain ⟨_, _, rfl⟩ := (appendBatch_ok hAppend).2.2
    change (before.runs.find? id).map Run.standing = _
    rw [hRuns]
    rfl
  have hTerminal : ∀ {requester}, AgentClaimRepo.recordRunTerminal { db with relations := relations } (env.part 3)
      (attributedActor caller command claimed) requester caller.isAdmin (offered env caller command claimed batch trail) =
      .ok (persisted, appended) → appended.standing.run id = db.standing.run id ∨ Retires command batch db appended id := by
    intro requester hRecorded
    rcases AgentClaimRepo.recordRunTerminal_standing hRecorded id with hKept | ⟨run, status, instant, reason, hIs, hFound,
      hActive, hAfter⟩
    · exact .inl hKept
    · refine .inr ⟨run, hFound, hActive, hAfter, .inl ?_⟩
      rcases AgentClaimRepo.terminalRun_cases hIs with ⟨_, hMem⟩ | ⟨_, hMem⟩
      · exact ⟨_, offered_payloads hMem, rfl⟩
      · exact ⟨_, offered_payloads hMem, rfl⟩
  have hStored := h.stored
  unfold persist at hStored
  split at hStored
  · unfold AgentClaimRepo.recordRunStarted at hStored
    dsimp only at hStored
    split at hStored
    · cases hStored
    · split at hStored
      · cases hStored
      · exact .inl (hSame hStored rfl)
  · exact hTerminal hStored
  · exact hTerminal hStored
  · split at hStored
    · unfold AgentClaimRepo.recordTaskLifecycle at hStored
      exact .inl (hSame hStored rfl)
    · split at hStored
      · rename_i hEnds
        unfold AgentClaimRepo.recordPlanTerminal at hStored
        split at hStored
        · cases hStored
        rename_i planId status reason endedAt hPlan
        dsimp only at hStored
        split at hStored
        · cases hStored
        obtain ⟨_, _, rfl⟩ := (appendBatch_ok hStored).2.2
        obtain ⟨hNamed, hHow⟩ := h.terminalPlan_command hEnds hPlan
        have hEnded : status ≠ .active := by
          rcases hHow with ⟨rfl, _⟩ | rfl <;> decide
        rcases AgentClaimRepo.endRuns_standing hEnded id with hKept | ⟨⟨run, hRun, rfl⟩, hAfter⟩
        · exact .inl hKept
        · obtain ⟨hFound, hIn, hActive⟩ := AgentClaimRepo.mem_activeRuns.mp hRun
          refine .inr ⟨run, hFound, hActive, hAfter.trans ?_, .inr ⟨hEnds, hIn ▸ hNamed⟩⟩
          change ((db.runs.find? run.id).map Run.standing).map _ = _
          rw [show db.runs.find? run.id = some run from hFound]
          rfl
      · exact .inl (hSame hStored rfl)

theorem Accepted.standing {applied : Database}
    (h : Accepted config env caller command claimed db batch relations trail persisted appended)
    (hTakesIn : command.takesIn = false) (hTracked : ∀ event ∈ batch, event.isTracked = true)
    (hApplied : Projections.applyEvents (env.part 4) persisted appended = (.ok (), applied)) :
    applied.standing = standingAfter batch appended.standing := by
  obtain ⟨first, last, hPayloads, hFirst, hLast⟩ := h.surrounded hTakesIn
  have hIdle : ∀ event : Event, event.isAudit = true ∨ IsRelease event →
      event.isTracked = true ∧ ∀ before, Event.stand before event = before := by
    rintro event (hAudit | ⟨_, _, _, rfl⟩)
    · cases event with
      | audit event => exact ⟨rfl, fun _ => Event.stand_of_idle (fun _ => rfl) (fun _ _ => rfl) rfl⟩
      | _ => cases hAudit
    · exact ⟨rfl, fun _ => Event.stand_of_idle (fun _ => rfl) (fun _ _ => rfl) rfl⟩
  have hAll : ∀ event ∈ first ++ batch ++ last, event.isTracked = true := by
    simp only [mem_append]
    rintro event ((hMem | hMem) | hMem)
    · exact (hIdle event (.inl (hFirst event hMem))).1
    · exact hTracked event hMem
    · exact (hIdle event (hLast event hMem)).1
  rw [Projections.applyEvents_standing (fun envelope hMem => hAll _ (hPayloads ▸ mem_map_of_mem hMem)) hApplied,
    hPayloads, standingAfter_append, standingAfter_append,
    standingAfter_eq_self fun event hMem => (hIdle event (hLast event hMem)).2,
    standingAfter_eq_self fun event hMem => (hIdle event (.inl (hFirst event hMem))).2]

end Handler

namespace Event

def taskStatus (event : Event) (id : TaskId) (status : Status) : Status :=
  match event with
  | .task (.taskStatusChanged taskId _ toStatus) => if taskId = id then toStatus else status
  | _ => status

def planStatus (event : Event) (id : PlanId) (status : PlanStatus) : PlanStatus :=
  match event with
  | .plan (.planStatusChanged planId _ toStatus) => if planId = id then toStatus else status
  | .plan (.planArchived planId _) => if planId = id then .abandoned else status
  | _ => status

def archives : Event → Option PlanId
  | .plan (.planArchived planId _) => some planId
  | _ => none

/-- An event whose effect on tasks and plans the overlay has. -/
def isFollowed : Event → Bool
  | .task (.taskCreated _) | .task (.taskSplitGenerated ..) | .task (.taskDeleted _) | .task (.taskCompleted ..) => false
  | .task (.taskUpdated _ patch) => patch.status.isNone
  | .plan (.planDeleted ..) => false
  | event => event.isTracked

end Event

/-- Events that the overlay follows. A completion says again what the transition
ahead of it said. -/
inductive Followed : List Event → Prop where
  | nil : Followed []
  | cons {event : Event} {rest : List Event} (h : event.isFollowed = true) (hRest : Followed rest) : Followed (event :: rest)
  | completed {id : TaskId} {fromStatus : Status} {completedAt : Timestamp} {note : Option CompletionNote}
      {rest : List Event} (hRest : Followed rest) :
      Followed (.task (.taskStatusChanged id fromStatus .done) :: .task (.taskCompleted id completedAt note) :: rest)

section

variable {events later : List Event} {event : Event}

theorem Followed.append (h : Followed events) (h' : Followed later) : Followed (events ++ later) := by
  induction h with
  | nil => exact h'
  | cons hEvent hRest ih => exact .cons hEvent ih
  | completed hRest ih => exact .completed ih

theorem Followed.of_all (h : Everywhere (fun event => event.isFollowed = true) events) : Followed events := by
  induction events with
  | nil => exact .nil
  | cons event rest ih =>
    obtain ⟨hFirst, hRest⟩ := forall_mem_cons.mp h
    exact .cons hFirst (ih hRest)

theorem Event.isTracked_of_isFollowed (h : event.isFollowed = true) : event.isTracked = true := by
  cases event with
  | task => rfl
  | plan event =>
    cases event with
    | planDeleted => cases h
    | _ => exact h
  | _ => exact h

theorem Followed.tracked (h : Followed events) : ∀ event ∈ events, event.isTracked = true := by
  induction h with
  | nil => exact fun _ hMem => absurd hMem not_mem_nil
  | cons hEvent hRest ih => exact forall_mem_cons.mpr ⟨Event.isTracked_of_isFollowed hEvent, ih⟩
  | completed hRest ih => exact forall_mem_cons.mpr ⟨rfl, forall_mem_cons.mpr ⟨rfl, ih⟩⟩

theorem Event.lifecycle_status (h : event.isFollowed = true) (id : TaskId) (row : Option Lifecycle) :
    (event.lifecycle id row).map Prod.fst = (row.map Prod.fst).map (event.taskStatus id) := by
  have hSame : ∀ row : Option Lifecycle, (row.map Prod.fst).map (fun status => status) = row.map Prod.fst :=
    fun row => Option.map_id'
  cases event with
  | task event =>
    cases event with
    | taskCreated | taskSplitGenerated | taskDeleted | taskCompleted => cases h
    | taskUpdated taskId patch =>
      have hNone : patch.status = none := Option.isNone_iff_eq_none.mp h
      change (if taskId = id then row.map fun row => (patch.status.getD row.1, row.2) else row).map Prod.fst = _
      rw [hNone]
      refine Eq.trans ?_ (hSame row).symm
      split
      · cases row <;> rfl
      · rfl
    | taskStatusChanged taskId fromStatus toStatus =>
      by_cases hIs : taskId = id
      · cases row <;> simp [Event.lifecycle, TaskEvent.lifecycle, taskStatus, hIs]
      · cases row <;> simp [Event.lifecycle, TaskEvent.lifecycle, taskStatus, hIs]
    | taskReopened taskId | taskClosed taskId =>
      by_cases hIs : taskId = id
      · cases row <;> simp [Event.lifecycle, TaskEvent.lifecycle, taskStatus, hIs]
      · cases row <;> simp [Event.lifecycle, TaskEvent.lifecycle, taskStatus, hIs]
    | _ => exact (hSame row).symm
  | _ => exact (hSame row).symm

theorem Followed.lifecycleAfter (h : Followed events) (id : TaskId) (row : Option Lifecycle) :
    (lifecycleAfter events id row).map Prod.fst =
      (row.map Prod.fst).map fun status => events.foldl (fun status event => event.taskStatus id status) status := by
  induction h generalizing row with
  | nil => exact (Option.map_id').symm
  | cons hEvent hRest ih =>
    rw [lifecycleAfter_cons, ih, Event.lifecycle_status hEvent, Option.map_map]
    rfl
  | @completed taskId fromStatus completedAt note rest hRest ih =>
    rw [lifecycleAfter_cons, lifecycleAfter_cons, ih]
    by_cases hIs : taskId = id
    · cases row <;> simp [Event.lifecycle, TaskEvent.lifecycle, Event.taskStatus, hIs]
    · cases row <;> simp [Event.lifecycle, TaskEvent.lifecycle, Event.taskStatus, hIs]

theorem Event.onPlan_eq (hTracked : event.isTracked = true)
    (hKeeps : ∀ planId instant, event ≠ .plan (.planDeleted planId instant)) (id : PlanId) (card : Option PlanCard) :
    event.onPlan id card = card.map fun card =>
      ⟨event.planStatus id card.status, card.archived || event.archives = some id, card.parent⟩ := by
  have hSame : ∀ card : Option PlanCard, card = card.map fun card => ⟨card.status, card.archived || false, card.parent⟩ := by
    intro card
    simp only [Bool.or_false]
    exact Option.map_id'.symm
  cases event with
  | plan event =>
    cases event with
    | planStatusChanged planId | planArchived planId =>
      by_cases hIs : planId = id
      · cases card <;> simp [onPlan, planStatus, archives, hIs]
      · cases card <;> simp [onPlan, planStatus, archives, hIs]
    | planDeleted planId instant => exact absurd rfl (hKeeps planId instant)
    | _ => cases hTracked
  | _ => exact hSame card

def cardAfter (events : List Event) (id : PlanId) (card : PlanCard) : PlanCard :=
  ⟨events.foldl (fun status event => event.planStatus id status) card.status,
    card.archived || events.any fun event => event.archives = some id, card.parent⟩

theorem Followed.onPlan (h : Followed events) (id : PlanId) (card : Option PlanCard) :
    events.foldl (fun card event => event.onPlan id card) card = card.map (cardAfter events id) := by
  have hStep : ∀ {event : Event} {rest : List Event} {card : Option PlanCard}, event.isTracked = true →
      (∀ planId instant, event ≠ .plan (.planDeleted planId instant)) →
      (∀ card : Option PlanCard, rest.foldl (fun card event => event.onPlan id card) card = card.map (cardAfter rest id)) →
      (event :: rest).foldl (fun card event => event.onPlan id card) card = card.map (cardAfter (event :: rest) id) := by
    intro event rest card hTracked hKeeps hRest
    rw [foldl_cons, hRest, Event.onPlan_eq hTracked hKeeps, Option.map_map]
    refine congrArg (Option.map · card) (funext fun card => ?_)
    simp only [cardAfter, Function.comp_apply, foldl_cons, any_cons, Bool.or_assoc]
  induction h generalizing card with
  | nil =>
    unfold cardAfter
    simp only [foldl_nil, any_nil, Bool.or_false]
    exact Option.map_id'.symm
  | cons hEvent hRest ih =>
    refine hStep (Event.isTracked_of_isFollowed hEvent) ?_ ih
    rintro planId instant rfl
    cases hEvent
  | completed hRest ih =>
    exact hStep rfl (fun _ _ hIs => by cases hIs) fun card => hStep rfl (fun _ _ hIs => by cases hIs) ih

theorem Followed.onMembers (h : Followed events) (members : List PlanTask) :
    events.foldl (fun members event => event.onMembers members) members = members := by
  have hEvent : ∀ {event : Event}, event.isFollowed = true → ∀ members, event.onMembers members = members := by
    intro event hFollowed members
    cases event with
    | plan event =>
      cases event with
      | planDeleted => cases hFollowed
      | _ => rfl
    | _ => rfl
  induction h with
  | nil => rfl
  | cons hFollowed hRest ih =>
    rw [foldl_cons, hEvent hFollowed]
    exact ih
  | completed hRest ih => exact ih

end

namespace Reconciliation

variable {db : Database} {pending : Pending} {events : List Event} {event : Event}

def brings (db : Database) (event : Event) : List PlanId := (note db ⟨[], [], [], []⟩ event).candidates

theorem lookup_cons_getD {Key Value : Type} [BEq Key] [LawfulBEq Key] [DecidableEq Key] {key other : Key}
    {value given : Value} {list : List (Key × Value)} :
    (((key, value) :: list).lookup other).getD given = if key = other then value else (list.lookup other).getD given := by
  rw [lookup_cons]
  by_cases hIs : key = other
  · rw [if_pos hIs, hIs, beq_self_eq_true]
    rfl
  · rw [if_neg hIs, beq_false_of_ne (Ne.symm hIs)]

structure Reads (db : Database) (events : List Event) (before after : Pending) : Prop where
  candidates : after.candidates = before.candidates ++ events.flatMap (brings db)
  tasks : ∀ id status, (after.taskStatuses.lookup id).getD status =
    events.foldl (fun status event => event.taskStatus id status) ((before.taskStatuses.lookup id).getD status)
  plans : ∀ id status, (after.planStatuses.lookup id).getD status =
    events.foldl (fun status event => event.planStatus id status) ((before.planStatuses.lookup id).getD status)
  runs : ∀ id, id ∈ after.endedRuns ↔ id ∈ before.endedRuns ∨ ∃ event ∈ events, event.endedRun = some id

theorem note_reads (pending : Pending) (event : Event) : Reads db [event] pending (note db pending event) := by
  have hReads : (note db pending event).candidates = pending.candidates ++ brings db event →
      (∀ id status, ((note db pending event).taskStatuses.lookup id).getD status =
        event.taskStatus id ((pending.taskStatuses.lookup id).getD status)) →
      (∀ id status, ((note db pending event).planStatuses.lookup id).getD status =
        event.planStatus id ((pending.planStatuses.lookup id).getD status)) →
      (∀ id, id ∈ (note db pending event).endedRuns ↔ id ∈ pending.endedRuns ∨ event.endedRun = some id) →
      Reads db [event] pending (note db pending event) := by
    intro hCandidates hTasks hPlans hRuns
    exact ⟨by simpa using hCandidates, hTasks, hPlans, by simpa using hRuns⟩
  have hIdle : note db pending event = pending → brings db event = [] → (∀ id status, event.taskStatus id status = status) →
      (∀ id status, event.planStatus id status = status) → event.endedRun = none →
      Reads db [event] pending (note db pending event) := by
    intro hNote hBrings hTask hPlan hRun
    refine hReads ?_ (fun id status => ?_) (fun id status => ?_) fun id => ?_
    · rw [hNote, hBrings, append_nil]
    · rw [hNote, hTask]
    · rw [hNote, hPlan]
    · simp [hNote, hRun]
  cases event with
  | task event =>
    cases event with
    | taskStatusChanged =>
      exact hReads rfl (fun _ _ => lookup_cons_getD) (fun _ _ => rfl) fun _ => by simp [note, Event.endedRun]
    | _ => exact hIdle rfl rfl (fun _ _ => rfl) (fun _ _ => rfl) rfl
  | plan event =>
    cases event with
    | planStatusChanged | planArchived =>
      exact hReads rfl (fun _ _ => rfl) (fun _ _ => lookup_cons_getD) fun _ => by simp [note, Event.endedRun]
    | _ => exact hIdle rfl rfl (fun _ _ => rfl) (fun _ _ => rfl) rfl
  | run event =>
    cases event with
    | runCompleted | runFailed | runAborted =>
      refine hReads rfl (fun _ _ => rfl) (fun _ _ => rfl) fun _ => ?_
      simp [note, endRun, Event.endedRun, or_comm, eq_comm]
    | _ => exact hIdle rfl rfl (fun _ _ => rfl) (fun _ _ => rfl) rfl
  | _ => exact hIdle rfl rfl (fun _ _ => rfl) (fun _ _ => rfl) rfl

theorem foldl_note_reads (pending : Pending) (events : List Event) :
    Reads db events pending (events.foldl (note db) pending) := by
  induction events generalizing pending with
  | nil => exact ⟨(append_nil _).symm, fun _ _ => rfl, fun _ _ => rfl, fun id => by simp⟩
  | cons event rest ih =>
    have hFirst : Reads db [event] pending _ := note_reads pending event
    have hRest := ih (note db pending event)
    refine ⟨?_, fun id status => ?_, fun id status => ?_, fun id => ?_⟩
    · rw [foldl_cons, hRest.candidates, hFirst.candidates, flatMap_singleton, flatMap_cons,
        append_assoc]
    · rw [foldl_cons, hRest.tasks, hFirst.tasks]
      rfl
    · rw [foldl_cons, hRest.plans, hFirst.plans]
      rfl
    · rw [foldl_cons, hRest.runs, hFirst.runs]
      simp [or_assoc]

theorem noted_reads (db : Database) (events : List Event) : Reads db events ⟨[], [], [], []⟩ (noted db events) :=
  foldl_note_reads _ _

end Reconciliation
end Daruma
