import Daruma.Core.ClosedPlans
import Daruma.Core.VersionHistory
import Mathlib.Data.List.Induction

/-! The deletion of projects. A route looks for tasks and plans before it sends the command,
and the command looks for tasks again, in the state that it is applied to; whoever sends
the command in another way has its plans looked for by nobody. -/
namespace Daruma

open Outcome List

def Database.HasTask (db : Database) (id : ProjectId) : Prop := ∃ task ∈ db.tasks, task.projectId = some id

def Database.HasPlan (db : Database) (id : ProjectId) : Prop := ∃ plan ∈ db.plans, plan.projectId = id

def SameAttachments (before after : Database) : Prop := after.tasks = before.tasks ∧ after.plans = before.plans

namespace SameAttachments

theorem refl (db : Database) : SameAttachments db db := ⟨rfl, rfl⟩

theorem trans {first second third : Database} (h : SameAttachments first second) (h' : SameAttachments second third) :
    SameAttachments first third := ⟨h'.1.trans h.1, h'.2.trans h.2⟩

theorem hasPlan {before after : Database} (h : SameAttachments before after) {id : ProjectId} : after.HasPlan id ↔ before.HasPlan id := by
  unfold Database.HasPlan
  rw [h.2]

end SameAttachments

namespace Projections

variable {env : Env} {envelope : EventEnvelope} {envelopes : List EventEnvelope} {db db' : Database}

/-- An event writes neither tasks nor plans. -/
structure Unattaching (event : Event) : Prop where
  tasks : ∀ env envelope tasks written, envelope.payload = event →
    TaskRepo.applyEvent tasks env envelope = .ok written → written = tasks
  plans : ∀ plan, event ≠ .plan plan

variable {event : Event} {actor : Actor}

theorem unattaching_of_other (hTask : ∀ task, event ≠ .task task) (hPlan : ∀ plan, event ≠ .plan plan) :
    Unattaching event := by
  refine ⟨fun env envelope tasks written hPayload hApplied => ?_, hPlan⟩
  unfold TaskRepo.applyEvent at hApplied
  split at hApplied
  · rename_i task hIs
    exact absurd (hPayload.symm.trans hIs) (hTask task)
  · exact (Except.ok.inj hApplied).symm

theorem projectors_attachments (h : Unattaching envelope.payload) {step : Database → Result Database}
    (hStep : step ∈ projectors env envelope) (hRun : step db = .ok db') : SameAttachments db db' := by
  obtain ⟨_, hWrote⟩ := exists_wrote hStep hRun
  cases hWrote with
  | tasks hTasks => exact ⟨h.tasks env envelope db.tasks _ rfl hTasks, rfl⟩
  | plans hApplied =>
    rw [← hApplied]
    unfold PlanRepo.applyEvent
    split
    · rename_i event hEvent
      exact absurd hEvent (h.plans event)
    · exact .refl db
  | _ => exact ⟨rfl, rfl⟩

theorem applyEvents_attachments {outcome : Except CoreError Unit}
    (hUnattaching : ∀ event ∈ envelopes.map EventEnvelope.payload, Unattaching event)
    (h : applyEvents env envelopes db = (outcome, db')) : SameAttachments db db' := by
  refine Stateful.inTurn_rel SameAttachments.refl (fun _ _ _ => .trans) ?_ h
  intro step hStep before after hRun
  obtain ⟨envelope, hMem, hProjector⟩ := mem_flatMap.mp hStep
  exact projectors_attachments (hUnattaching _ (mem_map_of_mem hMem)) hProjector hRun

end Projections

namespace Server

open Projections (Unattaching)

variable {config : Config} {db : Database} {call : Call}

theorem serve_attachments (hCall : Call.isCommand call = false) : SameAttachments db (serve config db call) := by
  refine serve_rule hCall fun ⟨_, _, _, _, _, _, hFrame, _⟩ => ?_
  rw [hFrame]
  exact ⟨rfl, rfl⟩

end Server

namespace Handler

open Projections (Unattaching)

variable {config : Config} {env : Env} {caller : Caller} {claimed : Actor} {db : Database} {id : ProjectId}
  {batch : List Event} {relations : Relations} {trail : GateStage.Trail} {persisted : List EventEnvelope}
  {appended applied : Database} {outcome : Except CoreError Unit}

theorem Accepted.deletion (h : Accepted config env caller (.project (.deleteProject id)) claimed db batch relations trail
      persisted appended) (hApplied : Projections.applyEvents (env.part 4) persisted appended = (outcome, applied)) :
    ¬db.HasTask id ∧ SameAttachments db applied := by
  obtain ⟨warnings, hDraft⟩ := h.built
  obtain ⟨built, hRecorded, hBatch⟩ := draft_ok (fun plan hIs => by cases hIs) hDraft
  obtain ⟨events, hEvents, rfl⟩ := map_eq_ok.mp (Stateful.lift_eq.mp hRecorded).1
  obtain ⟨project, _, hBuilt⟩ := bind_eq_ok.mp hEvents
  obtain ⟨_, hEmpty, hBuilt⟩ := bind_eq_ok.mp hBuilt
  cases pure_eq_ok.mp hBuilt
  refine ⟨?_, ?_⟩
  · rintro ⟨task, hTask, hProject⟩
    have hNone := of_decide_eq_true (ensure_eq_ok.mp hEmpty)
    rw [countP_eq_zero] at hNone
    exact hNone task hTask (decide_eq_true hProject)
  · have hStored : SameAttachments db appended := by
      obtain ⟨_, _, _, _, _, rfl⟩ := h.frame
      exact ⟨rfl, rfl⟩
    refine hStored.trans (Projections.applyEvents_attachments (fun event hMem => ?_) hApplied)
    obtain ⟨first, last, hPayloads, hFirst, hLast⟩ := h.surrounded rfl
    rw [hPayloads, hBatch, mem_append, mem_append] at hMem
    have hOfAudit : ∀ {event : Event}, event.isAudit = true → Unattaching event := by
      intro event hAudit
      refine Projections.unattaching_of_other (fun _ hIs => ?_) (fun _ hIs => ?_)
      · rw [hIs] at hAudit
        cases hAudit
      · rw [hIs] at hAudit
        cases hAudit
    rcases hMem with (hAudit | hBuilt) | hRest
    · exact hOfAudit (hFirst event hAudit)
    · have hNone : Reconciliation.planReconciliations db [.project (.projectDeleted id)] = [] :=
        (@Reconciliation.reconciled_none db db _ (.cons rfl .nil)).1
      have hOnly : event ∈ [Event.project (.projectDeleted id)] ++
          (Reconciliation.planReconciliations db [.project (.projectDeleted id)]).map .plan := hBuilt
      rw [hNone] at hOnly
      rw [mem_singleton.mp hOnly]
      exact Projections.unattaching_of_other (fun _ hIs => by cases hIs) (fun _ hIs => by cases hIs)
    · rcases hLast event hRest with hAudit | ⟨_, _, _, rfl⟩
      · exact hOfAudit hAudit
      · exact Projections.unattaching_of_other (fun _ hIs => by cases hIs) (fun _ hIs => by cases hIs)

theorem handle_deletion {answer : DispatchOutcome}
    (h : (handleWithRunOwner config env caller (.project (.deleteProject id)) claimed db).1 = .ok answer)
    (hSome : answer.events ≠ []) :
    ¬db.HasTask id ∧ SameAttachments db (handleWithRunOwner config env caller (.project (.deleteProject id)) claimed db).2 := by
  cases hRun : handleWithRunOwner config env caller (.project (.deleteProject id)) claimed db with
  | mk outcome after =>
  rw [hRun] at h
  cases handled hRun with
  | unlogged hOutcome _ _ => exact absurd (hOutcome answer h) hSome
  | stranded _ _ => cases h
  | projected hAccepted hApplied _ =>
    obtain ⟨hNone, hSame⟩ := hAccepted.deletion hApplied
    obtain ⟨_, _, _, _, _, _, hLines, _⟩ := AutoAppend.autoAppendLogs_lines _ _
    exact ⟨hNone, hSame.trans (hLines ▸ ⟨rfl, rfl⟩)⟩

end Handler

/-- The database, and the deletions that have passed the check of their route and are not
sent yet. -/
structure ProjectWorld where
  db : Database
  checked : List ProjectId

inductive ProjectAction where
  | call (call : Call)
  | checkDeletion (id : ProjectId)
  | dispatchDeletion (env : Env) (caller : Caller) (actor : Actor) (id : ProjectId)

namespace ProjectWorld

open Handler (handleWithRunOwner)

def checkDeletion (db : Database) (id : ProjectId) : Result Unit := do
  let _ ← ProjectCommands.requireProject db id
  let tasksCount := db.tasks.rows.countP fun task => task.projectId = some id
  let plansCount := db.plans.rows.countP fun plan => plan.projectId = id
  ensure (tasksCount = 0 && plansCount = 0) (.conflict s!"project_not_empty: tasks={tasksCount}, plans={plansCount}")

def callOf (world : ProjectWorld) : ProjectAction → Option Call
  | .call call => some call
  | .checkDeletion _ => none
  | .dispatchDeletion env caller actor id =>
    if id ∈ world.checked then some (.command env caller (.project (.deleteProject id)) actor) else none

def act (config : Config) (world : ProjectWorld) (action : ProjectAction) : ProjectWorld where
  db := match world.callOf action with
    | some call => Server.serve config world.db call
    | none => world.db
  checked := match action with
    | .call _ => world.checked
    | .checkDeletion id => match checkDeletion world.db id with
        | .ok _ => id :: world.checked
        | .error _ => world.checked
    | .dispatchDeletion _ _ _ id => world.checked.erase id

def run (config : Config) (actions : List ProjectAction) : ProjectWorld :=
  actions.foldl (act config) ⟨Database.empty, []⟩

/-- The action is a deletion of the project, sent by the route or in another way, and is
accepted. -/
def Deletes (config : Config) (world : ProjectWorld) (action : ProjectAction) (id : ProjectId) : Prop :=
  ∃ env caller actor answer, world.callOf action = some (.command env caller (.project (.deleteProject id)) actor) ∧
    (handleWithRunOwner config env caller (.project (.deleteProject id)) actor world.db).1 = .ok answer ∧ answer.events ≠ []

def BroughtAbout (config : Config) (world : ProjectWorld) (actions : List ProjectAction) (holds : Database → Prop) : Prop :=
  ∃ before action after env caller command actor, actions = before ++ action :: after ∧
    (before.foldl (act config) world).callOf action = some (.command env caller command actor) ∧
    ¬holds (before.foldl (act config) world).db ∧ holds (act config (before.foldl (act config) world) action).db

/-- No task and no plan is attached to the project when it is deleted, and one that is
later was attached by a later command. -/
structure Safe (config : Config) (world : ProjectWorld) (action : ProjectAction) (id : ProjectId) : Prop where
  noTask : ¬world.db.HasTask id
  noPlan : ¬world.db.HasPlan id
  tasks : ∀ later taskId, (∃ task ∈ (later.foldl (act config) (act config world action)).db.tasks,
    task.id = taskId ∧ task.projectId = some id) →
    BroughtAbout config (act config world action) later fun db => ∃ task ∈ db.tasks, task.id = taskId ∧ task.projectId = some id
  plans : ∀ later planId, (∃ plan ∈ (later.foldl (act config) (act config world action)).db.plans,
    plan.id = planId ∧ plan.projectId = id) →
    BroughtAbout config (act config world action) later fun db => ∃ plan ∈ db.plans, plan.id = planId ∧ plan.projectId = id

variable {config : Config} {world : ProjectWorld} {action : ProjectAction} {actions : List ProjectAction} {id : ProjectId}

variable {db : Database} {env : Env}

theorem callOf_dispatch {caller : Caller} (h : id ∈ world.checked) :
    world.callOf (.dispatchDeletion env caller actor id) = some (.command env caller (.project (.deleteProject id)) actor) :=
  if_pos h

theorem broughtAbout {holds : Database → Prop} (hKeeps : ∀ {before after}, SameAttachments before after → holds after → holds before)
    (hNot : ¬holds world.db) (hHolds : holds (actions.foldl (act config) world).db) :
    BroughtAbout config world actions holds := by
  induction actions generalizing world with
  | nil => exact absurd hHolds hNot
  | cons action rest ih =>
    by_cases hAfter : holds (act config world action).db
    · cases hCall : world.callOf action with
      | none =>
        have hSame : (act config world action).db = world.db := by
          unfold act
          rw [hCall]
        exact absurd (hSame ▸ hAfter) hNot
      | some call =>
        cases call with
        | command env caller command actor =>
          exact ⟨[], action, rest, env, caller, command, actor, rfl, hCall, hNot, hAfter⟩
        | _ =>
          have hSame : SameAttachments world.db (act config world action).db := by
            unfold act
            rw [hCall]
            exact Server.serve_attachments rfl
          exact absurd (hKeeps hSame hAfter) hNot
    · obtain ⟨before, later, after, env, caller, command, actor, hSplit, hRest⟩ := ih hAfter hHolds
      exact ⟨action :: before, later, after, env, caller, command, actor, by rw [hSplit]; rfl, hRest⟩

theorem Deletes.safe_iff (h : Deletes config world action id) :
    ¬world.db.HasTask id ∧ (Safe config world action id ↔ ¬world.db.HasPlan id) := by
  obtain ⟨env, caller, actor, answer, hCall, hAccepted, hSome⟩ := h
  obtain ⟨hNoTask, hSame⟩ := Handler.handle_deletion hAccepted hSome
  have hAfter : SameAttachments world.db (act config world action).db := by
    unfold act
    rw [hCall]
    exact hSame
  refine ⟨hNoTask, fun hSafe => hSafe.noPlan, fun hNoPlan => ⟨hNoTask, hNoPlan, fun later taskId hLater => ?_,
    fun later planId hLater => ?_⟩⟩
  · refine broughtAbout (fun hSame => ?_) ?_ hLater
    · rw [hSame.1]
      exact fun hHolds => hHolds
    · rintro ⟨task, hTask, _, hProject⟩
      rw [hAfter.1] at hTask
      exact hNoTask ⟨task, hTask, hProject⟩
  · refine broughtAbout (fun hSame => ?_) ?_ hLater
    · rw [hSame.2]
      exact fun hHolds => hHolds
    · rintro ⟨plan, hPlan, _, hProject⟩
      rw [hAfter.2] at hPlan
      exact hNoPlan ⟨plan, hPlan, hProject⟩

theorem checkDeletion_ok (h : checkDeletion db id = .ok ()) : ¬db.HasTask id ∧ ¬db.HasPlan id := by
  obtain ⟨_, _, h⟩ := bind_eq_ok.mp h
  have hNone := ensure_eq_ok.mp h
  simp only [Bool.and_eq_true, decide_eq_true_eq, countP_eq_zero] at hNone
  refine ⟨?_, ?_⟩
  · rintro ⟨task, hTask, hProject⟩
    exact hNone.1 task hTask hProject
  · rintro ⟨plan, hPlan, hProject⟩
    exact hNone.2 plan hPlan hProject

theorem checked_earlier (h : id ∈ (run config actions).checked) :
    ∃ before between, actions = before ++ .checkDeletion id :: between ∧
      ¬(run config before).db.HasTask id ∧ ¬(run config before).db.HasPlan id := by
  induction actions using List.reverseRecOn with
  | nil => cases h
  | append_singleton earlier action ih =>
    have hLast : run config (earlier ++ [action]) = act config (run config earlier) action := by
      unfold run
      rw [foldl_append]
      rfl
    rw [hLast] at h
    have hOld : id ∈ (run config earlier).checked → ∃ before between,
        earlier ++ [action] = before ++ .checkDeletion id :: between ∧
          ¬(run config before).db.HasTask id ∧ ¬(run config before).db.HasPlan id := by
      intro hMem
      obtain ⟨before, between, hSplit, hNone⟩ := ih hMem
      exact ⟨before, between ++ [action], by rw [hSplit]; simp, hNone⟩
    cases action with
    | call call => exact hOld h
    | dispatchDeletion env caller actor other => exact hOld (mem_of_mem_erase h)
    | checkDeletion other =>
      dsimp only [act] at h
      split at h
      · rename_i hPassed
        rcases mem_cons.mp h with rfl | hMem
        · exact ⟨earlier, [], rfl, checkDeletion_ok hPassed⟩
        · exact hOld hMem
      · exact hOld h

/-- In every run, deletions of any way and other calls in any order, an accepted deletion
finds no task; it is safe if and only if it finds no plan. One that came by the route found
neither when it was checked, and finds a plan only if a command attached one since. -/
theorem project_deletion (h : Deletes config (run config actions) action id) : ¬(run config actions).db.HasTask id ∧
      (Safe config (run config actions) action id ↔ ¬(run config actions).db.HasPlan id) ∧
      ∀ env caller actor, action = .dispatchDeletion env caller actor id →
        ∃ before between, actions = before ++ .checkDeletion id :: between ∧
          ((run config actions).db.HasPlan id → BroughtAbout config (run config before) (.checkDeletion id :: between)
            fun db => db.HasPlan id) := by
  obtain ⟨hNoTask, hSafe⟩ := h.safe_iff
  refine ⟨hNoTask, hSafe, ?_⟩
  rintro env caller actor rfl
  have hChecked : id ∈ (run config actions).checked := by
    obtain ⟨_, _, _, _, hCall, _⟩ := h
    by_contra hNot
    simp [callOf, hNot] at hCall
  obtain ⟨before, between, hSplit, _, hNoPlan⟩ := checked_earlier hChecked
  refine ⟨before, between, hSplit, fun hPlan => ?_⟩
  have hRun : run config actions = (.checkDeletion id :: between).foldl (act config) (run config before) := by
    rw [hSplit]
    exact foldl_append
  rw [hRun] at hPlan
  exact broughtAbout (fun hSame => hSame.hasPlan.mp) hNoPlan hPlan

open Server (engineConfig nthEnv)

private def ownProject : ProjectId := (Handler.builderEnv (nthEnv 0)).fresh 0

private def ownCommand (n : Nat) (command : Command) : ProjectAction := .call (.command (nthEnv n) .internal command .anyUser)

private def createdProject : List ProjectAction := [ownCommand 0 (.project (.createProject "project" none))]

private def createdPlan : ProjectAction := ownCommand 1 (.plan (.createPlan (NewPlan.new "plan" ownProject .anyUser) none))

/-- The command comes in another way than by the route. -/
private def deletion : ProjectAction := ownCommand 2 (.project (.deleteProject ownProject))

private def overtaken : List ProjectAction := createdProject ++ [.checkDeletion ownProject, createdPlan]

private def dispatched : ProjectAction := .dispatchDeletion (nthEnv 2) .internal .anyUser ownProject

private def answersEvents (config : Config) (world : ProjectWorld) (env : Env) (id : ProjectId) : Bool :=
  match (handleWithRunOwner config env .internal (.project (.deleteProject id)) .anyUser world.db).1 with
  | .ok answer => !answer.events.isEmpty
  | .error _ => false

private theorem deletes_of_answer (hCall : world.callOf action = some (.command env .internal (.project (.deleteProject id)) .anyUser))
    (hAnswer : answersEvents config world env id = true) : Deletes config world action id := by
  unfold answersEvents at hAnswer
  split at hAnswer
  · rename_i answer hOk
    exact ⟨env, .internal, .anyUser, answer, hCall, hOk, by simpa using hAnswer⟩
  · cases hAnswer

private theorem hasPlan_of_any (h : db.plans.rows.any (fun plan => plan.projectId = id) = true) : db.HasPlan id := by
  obtain ⟨plan, hPlan, hIs⟩ := any_eq_true.mp h
  exact ⟨plan, hPlan, of_decide_eq_true hIs⟩

private theorem not_safe (h : world.db.HasPlan id) : ¬Safe config world action id := fun hSafe => hSafe.noPlan h

private theorem deletes_created : Deletes engineConfig (run engineConfig createdProject) deletion ownProject :=
  deletes_of_answer rfl (by decide +kernel)

theorem project_deletion_created : ¬(run engineConfig createdProject).db.HasTask ownProject ∧
      (Safe engineConfig (run engineConfig createdProject) deletion ownProject ↔
        ¬(run engineConfig createdProject).db.HasPlan ownProject) ∧
      ∀ env caller actor, deletion = .dispatchDeletion env caller actor ownProject →
        ∃ before between, createdProject = before ++ .checkDeletion ownProject :: between ∧
          ((run engineConfig createdProject).db.HasPlan ownProject →
            BroughtAbout engineConfig (run engineConfig before) (.checkDeletion ownProject :: between)
              fun db => db.HasPlan ownProject) :=
  project_deletion deletes_created

/-- A project with a plan is deleted by a command that does not come from the route, and by
the route when a plan was created after its check. -/
theorem project_deleted_with_plan :
    (Deletes engineConfig (run engineConfig (createdProject ++ [createdPlan])) deletion ownProject ∧
      (run engineConfig (createdProject ++ [createdPlan])).db.HasPlan ownProject ∧
      ¬Safe engineConfig (run engineConfig (createdProject ++ [createdPlan])) deletion ownProject) ∧
      (Deletes engineConfig (run engineConfig overtaken) dispatched ownProject ∧
        (run engineConfig overtaken).db.HasPlan ownProject ∧
        ¬Safe engineConfig (run engineConfig overtaken) dispatched ownProject) := by
  refine ⟨⟨deletes_of_answer rfl ?_, hasPlan_of_any ?_, not_safe (hasPlan_of_any ?_)⟩,
    deletes_of_answer (callOf_dispatch ?_) ?_, hasPlan_of_any ?_, not_safe (hasPlan_of_any ?_)⟩
  all_goals decide +kernel

end ProjectWorld
end Daruma
