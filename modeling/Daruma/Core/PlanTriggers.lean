import Daruma.Core.PlanReadiness

/-! Which commands bring plans up for closing, and what their events look like: the
overlay follows them all but the status that a patch of a task carries. -/
namespace Daruma

open Outcome Stateful List
open Stateful (Yields lift)
open Reconciliation (noted planStatus)

namespace Event

def movesTo : Event → Option (TaskId × Status)
  | .task (.taskStatusChanged taskId _ toStatus) => some (taskId, toStatus)
  | .task (.taskCompleted taskId ..) => some (taskId, .done)
  | .task (.taskUpdated taskId patch) => patch.status.map fun status => (taskId, status)
  | _ => none

def closedPlan : Event → Option PlanId
  | .plan (.planStatusChanged planId _ .completed) | .plan (.planStatusChanged planId _ .abandoned)
  | .plan (.planArchived planId _) => some planId
  | _ => none

def bringsNone (event : Event) : Bool := event.movesTo.isNone && event.endedRun.isNone && event.closedPlan.isNone

end Event

abbrev AllBringNone (events : List Event) : Prop := Everywhere (fun event => event.bringsNone = true) events

/-- The command moves tasks, or ends plans or runs. -/
def Command.bringsUp : Command → Bool
  | .task (.updateTask ..) | .plan (.archivePlan _) | .plan (.deletePlan _) | .plan (.setPlanStatus ..)
  | .run (.completeRun _) | .run (.failRun ..) | .run (.abortRun ..) => true
  | .task command => command.moves
  | _ => false

section

variable {config : Config} {db : Database} {env : Env} {links : Bool} {actor : Actor} {command : Command} {event : Event}

theorem TaskCommand.bringsUp_of_moves {command : TaskCommand} (h : command.moves = true) :
    (Command.task command).bringsUp = true := by
  cases command with
  | updateTask => rfl
  | _ => exact h

theorem TaskCommand.not_places_of_moves {command : TaskCommand} (h : command.moves = true) :
    (Command.task command).places = false := by
  cases command with
  | createTask | updateTask | deleteTask | splitTask => cases h
  | _ => rfl

theorem taskUpdated_idle {id : TaskId} {patch : TaskPatch} (h : patch.status = none) :
    (Event.task (.taskUpdated id patch)).bringsNone = true := by
  simp [Event.bringsNone, Event.movesTo, Event.endedRun, Event.closedPlan, h]

theorem MayRecord.bringsNone (h : MayRecord db env links command event) (hBrings : command.bringsUp = false) :
    event.bringsNone = true := by
  cases h with
  | patched | completed | planMoved | planArchived => cases hBrings
  | moved hMoves => cases hBrings.symm.trans (TaskCommand.bringsUp_of_moves hMoves)
  | amended hNone => exact taskUpdated_idle hNone
  | @run command event _ hRun =>
    cases event with
    | runCompleted =>
      cases hRun.1
      cases hBrings
    | runFailed =>
      cases hRun
      cases hBrings
    | runAborted =>
      rcases hRun with hIs | ⟨_, _, hIs | hIs⟩
      · cases hIs
        cases hBrings
      · cases hIs
      · cases hIs
    | _ => rfl
  | @planRun command event _ hRun =>
    cases event with
    | runCompleted => cases hRun.1
    | runFailed => cases hRun
    | runAborted =>
      rcases hRun with hIs | ⟨_, _, hIs | hIs⟩
      · cases hIs
      · cases hIs
        cases hBrings
      · cases hIs
        cases hBrings
    | _ => rfl
  | @aside command event hAside =>
    cases event with
    | planGoalChanged | planTaskAmended | planReordered | planModifiedByHuman => rfl
    | _ => cases hAside
  | _ => rfl

namespace TaskCommands

variable {command : TaskCommand} {id : TaskId}

/-- What a move records follows, but for the completion itself. -/
theorem isFollowed_of_records (h : MayRecord db env links (.task command) event) (hMoves : command.moves = true)
    (hOther : ∀ id note, command ≠ .completeTask id note) : event.isFollowed = true := by
  cases h with
  | created hPlaces | joined hPlaces => cases (TaskCommand.not_places_of_moves hMoves).symm.trans hPlaces
  | split | patched | deleted | touched => cases hMoves
  | completed => exact absurd rfl (hOther _ _)
  | planCreated hCreates => cases hCreates
  | left hCommand =>
    rcases hCommand with hIs | hIs
    · cases hIs
      cases hMoves
    · cases hIs
  | _ => rfl

theorem archives_of_records (h : MayRecord db env links (.task command) event) : event.archives = none := by
  cases h with
  | _ => rfl

theorem updateTask_patched {given : TaskPatch} :
    Yields (buildEvents config db env actor (.updateTask id given)) fun events =>
      ∃ patch, events = [.task (.taskUpdated id patch)] ∧ patch.status = given.status :=
  .lift (.andThen fun _ _ => .andThen fun _ _ => .bind normalizePatch_status fun patch hStatus => .andThen
    fun _ _ => .andThen fun _ _ => .andThen fun _ _ => .pure ⟨patch, rfl, hStatus⟩)

theorem buildEvents_followed (hMoves : command.moves = true) :
    Yields (buildEvents config db env actor command) Followed := by
  have hAll : (∀ id note, command ≠ .completeTask id note) → Yields (buildEvents config db env actor command) Followed :=
    fun hOther => .mono (@buildEvents_records config db env false actor command) fun _ hRecords =>
      .of_all fun event hMem => isFollowed_of_records (hRecords event hMem) hMoves hOther
  cases command with
  | completeTask id completionNote =>
    refine .andThen fun _ => .andThen fun _ => .andThen fun _ => .andThen fun _ => .andThen fun _ =>
      .bind (releaseDownstream_rule (P := fun event => event.isFollowed = true) (fun _ => rfl) fun _ _ _ => rfl)
        fun _ hReleased => .pure ?_
    refine .completed (.cons rfl (.append (.of_all hReleased) (.of_all ?_)))
    exact closeTaskDocuments_rule fun _ _ _ _ => rfl
  | _ => exact hAll fun _ _ hIs => by cases hIs

end TaskCommands

end

namespace Reconciliation

theorem planStatus_noted (db : Database) (events : List Event) (plan : Plan) : planStatus (noted db events) plan =
    events.foldl (fun status event => event.planStatus plan.id status) plan.status :=
  (noted_reads db events).plans plan.id plan.status

end Reconciliation

theorem foldl_planStatus_eq_self {events : List Event} {id : PlanId}
    (h : ∀ event ∈ events, ∀ status, event.planStatus id status = status) (status : PlanStatus) :
    events.foldl (fun status event => event.planStatus id status) status = status := by
  induction events with
  | nil => rfl
  | cons event rest ih =>
    obtain ⟨hFirst, hRest⟩ := forall_mem_cons.mp h
    rw [foldl_cons, hFirst]
    exact ih hRest

/-- What the events of a command can look like before plans are reconciled. -/
inductive Shape (db : Database) (command : Command) (events : List Event) : Prop where
  | idle (h : AllBringNone events)
  /-- The overlay follows them all. A plan that they archive, or that the command
  ends with its runs, is not open after them. -/
  | followed (hTakesIn : command.takesIn = false) (h : Followed events)
      (hEnds : ∀ plan : Plan, (Handler.endsPlan command = true ∧ command.endedPlan = some plan.id) ∨
        (∃ event ∈ events, event.archives = some plan.id) →
        planStatus (noted db events) plan ≠ .active)
  | patched (id : TaskId) (given patch : TaskPatch) (hCommand : command = .task (.updateTask id given))
      (hEvents : events = [.task (.taskUpdated id patch)]) (hStatus : patch.status = given.status)
  /-- A plan that is deleted has no members, and only runs of it end. -/
  | deleted (id : PlanId) (instant : Timestamp) (runs : List Event) (hCommand : command = .plan (.deletePlan id))
      (hEvents : events = .plan (.planDeleted id instant) :: runs)
      (hRuns : ∀ event ∈ runs, event.movesTo = none ∧ event.closedPlan = none ∧ event.isTracked = true ∧
        ∀ runId, event.endedRun = some runId → ∃ run, db.runs.find? runId = some run ∧ run.planId = id)
      (hEmpty : PlanRepo.listTasksOrdered db id = [])

section

variable {config : Config} {db : Database} {env : Env} {actor : Actor}

namespace PlanCommands

theorem abortedRuns_ends {planId : PlanId} {now : Timestamp} {reason : String} :
    ∀ event ∈ abortedRuns db now planId reason, event.movesTo = none ∧ event.closedPlan = none ∧
      event.isTracked = true ∧ ∀ runId, event.endedRun = some runId →
        ∃ run, db.runs.find? runId = some run ∧ run.planId = planId := by
  intro event hMem
  obtain ⟨run, hRun, hEvent⟩ := mem_flatMap.mp hMem
  obtain ⟨hRow, hIs⟩ := mem_filter.mp (mem_orderBy.mp hRun)
  rw [Bool.and_eq_true, decide_eq_true_eq] at hIs
  rcases mem_cons.mp hEvent with rfl | hEvent
  · refine ⟨rfl, rfl, rfl, fun runId hEnds => ?_⟩
    cases hEnds
    exact ⟨run, KeyedTable.find?_of_mem hRow, hIs.1⟩
  · rw [mem_singleton.mp hEvent]
    exact ⟨rfl, rfl, rfl, fun runId hEnds => by cases hEnds⟩

variable {id : PlanId}

theorem archivePlan_shape : Yields (archivePlan db env.now id) (Shape db (.plan (.archivePlan id))) := by
  refine .andThen fun _ _ => .ite (fun _ => .pure (.idle .nil)) fun _ => .pure (.followed rfl ?_ fun plan hEnds => ?_)
  · exact .cons rfl (.of_all (.flatMap fun _ => .cons rfl (.cons rfl .nil)))
  · have hRuns : ∀ event ∈ abortedRuns db env.now id "plan_archived", event.archives = none ∧
        ∀ status, event.planStatus plan.id status = status := by
      intro event hMem
      obtain ⟨run, _, hEvent⟩ := mem_flatMap.mp hMem
      rcases mem_cons.mp hEvent with rfl | hEvent
      · exact ⟨rfl, fun _ => rfl⟩
      · rw [mem_singleton.mp hEvent]
        exact ⟨rfl, fun _ => rfl⟩
    have hIs : id = plan.id := by
      rcases hEnds with ⟨_, hNamed⟩ | ⟨event, hMem, hArchives⟩
      · exact Option.some.inj hNamed
      · rcases mem_cons.mp hMem with rfl | hMem
        · exact Option.some.inj hArchives
        · cases (hRuns event hMem).1.symm.trans hArchives
    rw [Reconciliation.planStatus_noted, foldl_cons,
      foldl_planStatus_eq_self fun event hMem => (hRuns event hMem).2]
    change (if id = plan.id then PlanStatus.abandoned else plan.status) ≠ .active
    rw [if_pos hIs]
    exact nofun

theorem setPlanStatus_shape {status : PlanStatus} {force : Bool} {reason : Option String} :
    Yields (List.map Event.plan <$> setPlanStatus db id status)
      (Shape db (.plan (.setPlanStatus id status force reason))) := by
  refine .map fun events hOk => ?_
  by_cases hNone : events = []
  · rw [hNone]
    exact .idle .nil
  obtain ⟨fromStatus, rfl, _⟩ := setPlanStatus_head _ hOk hNone
  refine .followed rfl (.cons rfl .nil) fun plan hEnds => ?_
  rw [Reconciliation.planStatus_noted]
  change (if id = plan.id then status else plan.status) ≠ .active
  rcases hEnds with ⟨hEnds, hNamed⟩ | ⟨event, hMem, hArchives⟩
  · rw [if_pos (Option.some.inj hNamed)]
    rintro rfl
    cases hEnds
  · rw [mem_singleton.mp hMem] at hArchives
    cases hArchives

theorem deletePlan_shape : Yields (deletePlan db env.now id) (Shape db (.plan (.deletePlan id))) := by
  refine .andThen fun _ _ => .andThen fun _ hEmpty => .pure (.deleted id env.now _ rfl rfl abortedRuns_ends ?_)
  exact eq_nil_of_length_eq_zero (of_decide_eq_true (ensure_eq_ok.mp hEmpty))

end PlanCommands

theorem buildEvents_shape {command : Command} (h : command.bringsUp = true) :
    Yields (buildEvents config db env actor command) (Shape db command) := by
  cases command with
  | plan command =>
    cases command with
    | archivePlan id => exact .lift PlanCommands.archivePlan_shape
    | deletePlan id => exact .lift PlanCommands.deletePlan_shape
    | setPlanStatus id status force reason => exact .lift PlanCommands.setPlanStatus_shape
    | _ => cases h
  | run command =>
    have hEnds : ∀ event : RunEvent, (Event.run event).isFollowed = true → Shape db (.run command) ([event].map .run) := by
      intro event hFollowed
      refine .followed rfl (.cons hFollowed .nil) fun plan hEnds => ?_
      rcases hEnds with ⟨hEnds, _⟩ | ⟨event, hMem, hArchives⟩
      · cases hEnds
      · rw [mem_singleton.mp hMem] at hArchives
        cases hArchives
    cases command with
    | completeRun runId =>
      exact .lift (.map (.andThen fun _ _ => .andThen fun _ _ => .andThen fun _ _ => .pure (hEnds _ rfl)))
    | failRun | abortRun => exact .lift (.map (.andThen fun _ _ => .pure (hEnds _ rfl)))
    | _ => cases h
  | task command =>
    cases hMoves : command.moves with
    | true =>
      intro relations events later hOk
      refine .followed (TaskCommand.plain_of_moves hMoves).1
        (TaskCommands.buildEvents_followed hMoves relations events later hOk) fun plan hEnds => ?_
      rcases hEnds with ⟨hEnds, _⟩ | ⟨event, hMem, hArchives⟩
      · cases hEnds
      · have hRecords : MayRecord db env false (.task command) event :=
          TaskCommands.buildEvents_records relations events later hOk event hMem
        cases (TaskCommands.archives_of_records hRecords).symm.trans hArchives
    | false =>
      cases command with
      | updateTask id given =>
        refine .mono (@TaskCommands.updateTask_patched config db env actor id given) fun events hPatched => ?_
        obtain ⟨patch, rfl, hStatus⟩ := hPatched
        exact .patched id given patch rfl rfl hStatus
      | createTask | deleteTask | setPriority | splitTask => cases h
      | _ => cases hMoves
  | _ => cases h

end

namespace Handler

variable {config : Config} {db : Database} {env : Env} {caller : Caller} {actor : Actor} {command : Command}

theorem Shape.authenticated {events : List Event} (h : Shape db command events) :
    Shape db command (events.map (authenticated caller)) := by
  have hNoted : noted db (events.map (Handler.authenticated caller)) = noted db events := by
    unfold noted
    rw [foldl_map]
    refine congrArg (List.foldl · _ events) (funext fun pending => funext fun event => ?_)
    rcases authenticated_cases caller event with hIs | ⟨_, _, rfl, hIs⟩
    · rw [hIs]
    · rw [hIs]
      rfl
  cases h with
  | idle hIdle =>
    refine .idle (forall_mem_map.mpr fun event hMem => ?_)
    rcases authenticated_cases caller event with hIs | ⟨_, _, rfl, hIs⟩
    · exact hIs.symm ▸ hIdle event hMem
    · rw [hIs]
      rfl
  | followed hTakesIn hFollowed hEnds =>
    refine .followed hTakesIn ?_ fun plan hHow => ?_
    · clear hEnds hNoted
      induction hFollowed with
      | nil => exact .nil
      | @cons event rest hEvent hRest ih =>
        refine .cons ?_ ih
        rcases authenticated_cases caller event with hIs | ⟨_, _, rfl, hIs⟩
        · exact hIs.symm ▸ hEvent
        · rw [hIs]
          rfl
      | completed hRest ih => exact .completed ih
    · rw [hNoted]
      refine hEnds plan (hHow.imp_right fun ⟨event, hMem, hArchives⟩ => ?_)
      obtain ⟨given, hGiven, rfl⟩ := mem_map.mp hMem
      rcases authenticated_cases caller given with hIs | ⟨_, _, rfl, hIs⟩
      · exact ⟨given, hGiven, hIs ▸ hArchives⟩
      · rw [hIs] at hArchives
        cases hArchives
  | patched id given patch hCommand hEvents hStatus =>
    rw [hEvents]
    exact .patched id given patch hCommand rfl hStatus
  | deleted id instant runs hCommand hEvents hRuns hEmpty =>
    rw [hEvents]
    refine .deleted id instant (runs.map (Handler.authenticated caller)) hCommand rfl ?_ hEmpty
    refine forall_mem_map.mpr fun event hMem => ?_
    rcases authenticated_cases caller event with hIs | ⟨_, _, rfl, hIs⟩
    · exact hIs.symm ▸ hRuns event hMem
    · rw [hIs]
      exact ⟨rfl, rfl, rfl, fun _ hEnds => by cases hEnds⟩

theorem withSource_nil {built : List Event} : withSource ⟨command, [], []⟩ built = built := by
  unfold withSource
  split <;> rfl

theorem unreconciled_unsourced {property : List Event → Prop}
    (hSource : resolveSource config db (env.part 0) actor command = .ok ⟨command, [], []⟩)
    (h : Yields (buildEvents config db (env.part 1) actor command) fun built =>
      property (built.map (authenticated caller))) :
    Yields (unreconciled config db env caller actor command) property := by
  have hSourced : Outcome.Yields (resolveSource config db (env.part 0) actor command)
      fun sourced => sourced = ⟨command, [], []⟩ := fun sourced hOk => Except.ok.inj (hOk.symm.trans hSource)
  refine .bind (.lift hSourced) fun sourced hIs => ?_
  rw [hIs]
  refine .bind h fun built hBuilt => .pure ?_
  rw [withSource_nil]
  exact hBuilt

/-- An update records its patch before plans are reconciled. -/
theorem unreconciled_patched {id : TaskId} {given : TaskPatch} :
    Yields (unreconciled config db env caller actor (.task (.updateTask id given))) fun events =>
      ∃ patch, events = [.task (.taskUpdated id patch)] ∧ patch.status = given.status := by
  refine unreconciled_unsourced rfl (.mono (@TaskCommands.updateTask_patched config db (env.part 1) actor id given) fun built hPatched => ?_)
  obtain ⟨patch, rfl, hStatus⟩ := hPatched
  exact ⟨patch, rfl, hStatus⟩

theorem unreconciled_shape : Yields (unreconciled config db env caller actor command) (Shape db command) := by
  cases hBrings : command.bringsUp with
  | false =>
    exact .mono unreconciled_records fun events hRecords =>
      .idle fun event hMem => (hRecords event hMem).bringsNone hBrings
  | true =>
    refine unreconciled_unsourced ?_ (.mono (buildEvents_shape hBrings) fun _ hShape => Shape.authenticated hShape)
    cases command with
    | plan command =>
      cases command with
      | archivePlan | deletePlan | setPlanStatus => rfl
      | _ => cases hBrings
    | _ => rfl

end Handler
end Daruma
