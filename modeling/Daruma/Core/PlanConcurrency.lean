import Daruma.Core.CanStart
import Daruma.Library.Waves

/-! The order in which the tasks of a plan can be worked on: the next task of an agent,
the waves of a fan-out, and what says of a task that it is blocked. -/
namespace Daruma

open List
open RelationEnforcement (listActiveBlockers mem_listActiveBlockers)
open KeyedTable (mem_rows find?_of_mem)
open Database (statusOf)
open PlanTask (taskId key)

open PlanRepo (listTasksOrdered)

/-- The agent of the live claim of another agent that expires last. -/
def AgentClaimRepo.isClaimedByOther (claims : AgentClaims) (now : Timestamp) (taskId : TaskId) (agentId : AgentId) :
    Option AgentId :=
  let others := claims.rows.filter fun claim => claim.taskId = taskId && claim.live now && claim.agentId ≠ agentId
  (orderBy (fun claim => -claim.expiresAt) others).head?.map AgentClaim.agentId

structure NextTask where
  taskId : TaskId
  position : Nat
  claimExpiresAt : Option Timestamp
  deriving DecidableEq

namespace NextTaskResolver

/-- No other task stands in the way of this one, by the relations. -/
def unblocked (relations : Option Relations) (tasks : Tasks) (taskId : TaskId) : Bool :=
  match relations with
  | some relations => (listActiveBlockers relations tasks taskId).isEmpty
  | none => true

/-- The tests that a member passes to be handed out. -/
def candidate (db : Database) (relations : Option Relations) (now : Timestamp) (agentId : AgentId) (pt : PlanTask) : Bool :=
  match db.tasks.find? pt.taskId with
  | none => false
  | some task =>
    !(task.status.isTerminal || task.status = .inbox) &&
      (pt.dependsOn.all fun dep => match db.tasks.find? dep with
        | some dep => dep.status = .done
        | none => false) &&
      unblocked relations db.tasks pt.taskId &&
      (AgentClaimRepo.isClaimedByOther db.agentClaims now pt.taskId agentId).isNone

/-- The first member in plan order that an agent should work on. -/
def next (db : Database) (relations : Option Relations) (now : Timestamp) (planId : PlanId) (agentId : AgentId)
    (claimTtl : Option Duration) : Result (Option NextTask) := do
  let plan ← requirePlan db planId
  if plan.status ≠ .active then pure none
  else
    let found := (listTasksOrdered db planId).find? (candidate db relations now agentId)
    pure (found.map fun pt => ⟨pt.taskId, pt.position, claimTtl.map fun ttl => now + ttl⟩)

end NextTaskResolver

def ClaimedByOther (db : Database) (now : Timestamp) (agentId : AgentId) (taskId : TaskId) : Prop :=
  ∃ claim ∈ db.agentClaims, claim.taskId = taskId ∧ now ≤ claim.expiresAt ∧ claim.agentId ≠ agentId

/-- A member that can be worked on: it is there, neither finished nor in the inbox, what it
depends on is done, nothing blocks it, and no other agent has claimed it. -/
structure Eligible (db : Database) (now : Timestamp) (agentId : AgentId) (member : PlanTask) : Prop where
  started : ∃ status, db.statusOf member.taskId = some status ∧ status.isTerminal = false ∧ status ≠ .inbox
  dependencies : ∀ dep ∈ member.dependsOn, db.statusOf dep = some .done
  unblocked : listActiveBlockers db.relations db.tasks member.taskId = []
  free : ¬ClaimedByOther db now agentId member.taskId

abbrev IsMember (db : Database) (planId : PlanId) (task : TaskId) : Prop :=
  ∃ member ∈ listTasksOrdered db planId, member.taskId = task

/-- A task waits for another that is not done: as a member that depends on it, or blocked by it. -/
def WaitsFor (db : Database) (planId : PlanId) (task other : TaskId) : Prop :=
  (∃ member ∈ listTasksOrdered db planId, member.taskId = task ∧ other ∈ member.dependsOn ∧
    db.statusOf other ≠ some .done) ∨ other ∈ listActiveBlockers db.relations db.tasks task

/-- A task that no agent of the plan but perhaps another one goes on with: in the inbox,
claimed, cancelled, gone, or unfinished outside of the plan. -/
inductive Stopped (db : Database) (now : Timestamp) (planId : PlanId) (agentId : AgentId) (task : TaskId) : Prop
  | inbox (h : db.statusOf task = some .inbox)
  | claimed (h : ClaimedByOther db now agentId task)
  | cancelled (h : db.statusOf task = some .cancelled)
  | missing (h : db.statusOf task = none)
  | outside (h : ∀ member ∈ listTasksOrdered db planId, member.taskId ≠ task) (hOpen : db.statusOf task ≠ some .done)

variable {db : Database} {now : Timestamp} {planId : PlanId} {agentId : AgentId} {member : PlanTask} {task other : TaskId}

theorem AgentClaimRepo.isClaimedByOther_isNone :
    (isClaimedByOther db.agentClaims now task agentId).isNone = true ↔ ¬ClaimedByOther db now agentId task := by
  unfold isClaimedByOther ClaimedByOther
  rw [Option.isNone_iff_eq_none, Option.map_eq_none_iff, head?_eq_none_iff, eq_nil_iff_forall_not_mem]
  simp only [mem_orderBy, mem_filter, AgentClaim.live, Bool.and_eq_true, decide_eq_true_eq, mem_rows]
  constructor
  · rintro h ⟨claim, hMem, hTask, hLive, hOther⟩
    exact h claim ⟨hMem, ⟨hTask, hLive⟩, hOther⟩
  · rintro h claim ⟨hMem, ⟨hTask, hLive⟩, hOther⟩
    exact h ⟨claim, hMem, hTask, hLive, hOther⟩

theorem done_iff {id : TaskId} : (match db.tasks.find? id with
    | some dep => decide (dep.status = .done)
    | none => false) = true ↔ db.statusOf id = some .done :=
  RelationEnforcement.done_iff

theorem NextTaskResolver.candidate_iff :
    candidate db (some db.relations) now agentId member = true ↔ Eligible db now agentId member := by
  have hClaim := @AgentClaimRepo.isClaimedByOther_isNone db now agentId member.taskId
  unfold candidate
  cases hFound : db.tasks.find? member.taskId with
  | none =>
    refine iff_of_false Bool.false_ne_true fun h => ?_
    obtain ⟨status, hStatus, -⟩ := h.started
    rw [statusOf, hFound] at hStatus
    cases hStatus
  | some task =>
    have hStatus : db.statusOf member.taskId = some task.status := by rw [statusOf, hFound, Option.map_some]
    simp only [Bool.and_eq_true, hClaim, List.all_eq_true, done_iff, unblocked, List.isEmpty_iff, Bool.not_eq_true',
      Bool.or_eq_false_iff, decide_eq_false_iff_not]
    constructor
    · rintro ⟨⟨⟨hOpen, hDeps⟩, hBlocked⟩, hFree⟩
      exact ⟨⟨task.status, hStatus, hOpen⟩, hDeps, hBlocked, hFree⟩
    · rintro ⟨⟨status, hIs, hOpen⟩, hDeps, hBlocked, hFree⟩
      obtain rfl := Option.some.inj (hStatus.symm.trans hIs)
      exact ⟨⟨⟨hOpen, hDeps⟩, hBlocked⟩, hFree⟩

theorem WaitsFor.not_done (h : WaitsFor db planId task other) : db.statusOf other ≠ some .done := by
  rcases h with ⟨_, _, _, _, hOpen⟩ | hBlocks
  · exact hOpen
  · obtain ⟨-, blocker, hMem, rfl, hOpen⟩ := mem_listActiveBlockers.mp hBlocks
    rw [statusOf, find?_of_mem hMem, Option.map_some, ne_eq, Option.some.injEq]
    exact hOpen

/-- A member that can be worked on, as far as it is not for other tasks. -/
def Available (db : Database) (now : Timestamp) (planId : PlanId) (agentId : AgentId) (task : TaskId) : Prop :=
  IsMember db planId task ∧
    (∃ status, db.statusOf task = some status ∧ status.isTerminal = false ∧ status ≠ .inbox) ∧
    ¬ClaimedByOther db now agentId task

theorem stopped_of_not_available (h : ¬Available db now planId agentId task) (hOpen : db.statusOf task ≠ some .done) :
    Stopped db now planId agentId task := by
  by_cases hClaim : ClaimedByOther db now agentId task
  · exact .claimed hClaim
  by_cases hMember : IsMember db planId task
  · cases hStatus : db.statusOf task with
    | none => exact .missing hStatus
    | some status =>
      cases status with
      | inbox => exact .inbox hStatus
      | cancelled => exact .cancelled hStatus
      | done => exact absurd hStatus hOpen
      | todo | inProgress | inReview => exact absurd ⟨hMember, ⟨_, hStatus, rfl, by simp⟩, hClaim⟩ h
  · exact .outside (fun member hMem hIs => hMember ⟨member, hMem, hIs⟩) hOpen

theorem not_grounded_of_none (hNone : ∀ member ∈ listTasksOrdered db planId, ¬Eligible db now agentId member) :
    ¬Waves.Grounded (Available db now planId agentId) (WaitsFor db planId) task := by
  intro h
  induction h with
  | @go task hHere _ ih =>
    obtain ⟨⟨member, hMem, rfl⟩, hStarted, hFree⟩ := hHere
    refine hNone member hMem ⟨hStarted, fun dep hDep => ?_, ?_, hFree⟩
    · exact not_not.mp fun hOpen => ih dep (.inl ⟨member, hMem, rfl, hDep, hOpen⟩)
    · exact eq_nil_iff_forall_not_mem.mpr fun blocker hBlocks => ih blocker (.inr hBlocks)

/-- The next task of an active plan is its first eligible member. There is none only where
each unfinished member is stopped, waits in a chain for a task that is stopped, or is on
or behind a cycle. -/
theorem next_task_exact {plan : Plan} (claimTtl : Option Duration) (hPlan : db.plans.find? planId = some plan)
    (hActive : plan.status = .active) :
    (∀ next, NextTaskResolver.next db (some db.relations) now planId agentId claimTtl = .ok (some next) ↔
      ∃ before member after, listTasksOrdered db planId = before ++ member :: after ∧
        Eligible db now agentId member ∧ (∀ earlier ∈ before, ¬Eligible db now agentId earlier) ∧
        next = ⟨member.taskId, member.position, claimTtl.map fun ttl => now + ttl⟩) ∧
    (NextTaskResolver.next db (some db.relations) now planId agentId claimTtl = .ok none →
      ∀ member ∈ listTasksOrdered db planId, ∀ status, db.statusOf member.taskId = some status →
        status.isTerminal = false → ∃ last, Relation.ReflTransGen (WaitsFor db planId) member.taskId last ∧
          (Stopped db now planId agentId last ∨ Relation.TransGen (WaitsFor db planId) last last)) := by
  have hNext : NextTaskResolver.next db (some db.relations) now planId agentId claimTtl =
      .ok (((listTasksOrdered db planId).find? (NextTaskResolver.candidate db (some db.relations) now agentId)).map
        fun pt => ⟨pt.taskId, pt.position, claimTtl.map fun ttl => now + ttl⟩) := by
    unfold NextTaskResolver.next requirePlan
    rw [hPlan]
    exact if_neg (not_not.mpr hActive)
  have hNot : ∀ earlier, (!NextTaskResolver.candidate db (some db.relations) now agentId earlier) = true ↔
      ¬Eligible db now agentId earlier := fun earlier => by rw [Bool.not_eq_true', Bool.eq_false_iff, ne_eq, NextTaskResolver.candidate_iff]
  rw [hNext]
  constructor
  · intro next
    rw [Except.ok.injEq, Option.map_eq_some_iff]
    simp only [find?_eq_some_iff_append, NextTaskResolver.candidate_iff, hNot]
    constructor
    · rintro ⟨member, ⟨hHere, before, after, hList, hBefore⟩, rfl⟩
      exact ⟨before, member, after, hList, hHere, hBefore, rfl⟩
    · rintro ⟨before, member, after, hList, hHere, hBefore, rfl⟩
      exact ⟨member, ⟨hHere, before, after, hList, hBefore⟩, rfl⟩
  · intro hNone member hMem status hStatus hOpen
    rw [Except.ok.injEq, Option.map_eq_none_iff, find?_eq_none] at hNone
    have hHeld : Waves.HeldUp (Available db now planId agentId) (WaitsFor db planId) member.taskId := by
      refine not_not.mp fun hFree => not_grounded_of_none (fun earlier hIn => ?_)
        ((@Waves.grounded_iff _ _ _ _ ((listTasksOrdered db planId).map PlanTask.taskId) ?_).mpr hFree)
      · exact fun hEligible => hNone earlier hIn (NextTaskResolver.candidate_iff.mpr hEligible)
      · rintro _ ⟨⟨found, hFound, rfl⟩, -⟩
        exact mem_map_of_mem hFound
    obtain ⟨last, hPath, hEnd⟩ := hHeld
    refine ⟨last, hPath, hEnd.imp_left fun hStopped => stopped_of_not_available hStopped ?_⟩
    cases hPath with
    | refl =>
      rw [hStatus]
      rintro ⟨⟩
      cases hOpen
    | tail _ hStep => exact hStep.not_done

/-! A plan of the task 7, with a task 8 beside it -/

private def plannedId : PlanId := (Handler.builderEnv (Server.nthEnv 3)).fresh 0

private def plannedWith (commands : List Command) : Database := Server.run Server.engineConfig (Server.commands ([
  .task (.createTask { NewTask.new "task" with id := some ⟨7⟩ }),
  .task (.setStatus ⟨7⟩ .todo false none none),
  .task (.createTask { NewTask.new "other" with id := some ⟨8⟩ }),
  .plan (.createPlan (NewPlan.new "plan" ⟨0⟩ .anyUser) none)] ++ commands))

private def activePlan : Database :=
  plannedWith [.plan (.addPlanTask plannedId ⟨7⟩ none none), .plan (.setPlanStatus plannedId .active false none)]

/-- What the witnesses need of that plan, all read off one evaluation of its run. -/
private theorem activePlan_computed :
    ((activePlan.plans.find? plannedId).any fun plan => plan.status = .active) = true ∧
      (NextTaskResolver.next activePlan (some activePlan.relations) 0 plannedId ⟨5⟩ none).toOption =
        some (some ⟨⟨7⟩, 0, none⟩) ∧
      IsMember activePlan plannedId ⟨7⟩ ∧ activePlan.statusOf ⟨7⟩ = some .todo ∧
      ∀ member ∈ listTasksOrdered activePlan plannedId, member.dependsOn = [] := by
  decide +kernel

private theorem activePlan_found : ∃ plan, activePlan.plans.find? plannedId = some plan ∧ plan.status = .active := by
  obtain ⟨plan, hFound, hIs⟩ := (Option.any_eq_true _ _).mp activePlan_computed.1
  exact ⟨plan, hFound, of_decide_eq_true hIs⟩

theorem next_task_exact_active :
    (NextTaskResolver.next activePlan (some activePlan.relations) 0 plannedId ⟨5⟩ none).toOption = some (some ⟨⟨7⟩, 0, none⟩) ∧
      ∀ next, NextTaskResolver.next activePlan (some activePlan.relations) 0 plannedId ⟨5⟩ none = .ok (some next) ↔
        ∃ before member after, listTasksOrdered activePlan plannedId = before ++ member :: after ∧
          Eligible activePlan 0 ⟨5⟩ member ∧ (∀ earlier ∈ before, ¬Eligible activePlan 0 ⟨5⟩ earlier) ∧
          next = ⟨member.taskId, member.position, none⟩ := by
  obtain ⟨plan, hFound, hActive⟩ := activePlan_found
  exact ⟨activePlan_computed.2.1, (next_task_exact none hFound hActive).1⟩

def RelationRepo.listByTaskIds (relations : Relations) (ids : List TaskId) : List Relation :=
  orderBy Relation.createdAt (relations.rows.filter fun rel => rel.source ∈ ids || rel.target ∈ ids)

structure PlanFanoutWave where
  wave : Nat
  tasks : List TaskId
  deriving DecidableEq

namespace PlanReadiness

def taskDone (db : Database) (id : TaskId) : Bool := (db.tasks.find? id).any fun task => task.status = .done

/-- The members that are there and not finished. -/
def remaining (db : Database) (planTasks : List PlanTask) : List TaskId :=
  (planTasks.filter fun pt => (db.tasks.find? pt.taskId).any fun task => !task.status.isTerminal).map taskId

/-- What a task that is left waits for. Of the tasks that it depends on, only members are
loaded; the tasks that block it are loaded from anywhere. -/
def incoming (db : Database) (planTasks : List PlanTask) (id : TaskId) : List TaskId :=
  let taskIds := planTasks.map taskId
  let isDone := fun dep => dep ∈ taskIds && taskDone db dep
  if id ∈ remaining db planTasks then
    ((planTasks.filter fun pt => pt.taskId = id).flatMap fun pt => pt.dependsOn.filter fun dep => !isDone dep) ++
      (((RelationRepo.listByTaskIds db.relations taskIds).filter fun rel => rel.kind = .blocks && rel.target = id).map
        Relation.source).filter fun blocker => !taskDone db blocker
  else []

def planFanout (db : Database) (planId : PlanId) : Result (List PlanFanoutWave) := do
  let _ ← requirePlan db planId
  let planTasks := listTasksOrdered db planId
  let left := remaining db planTasks
  let waves := Waves.peel (planTasks.map taskId) left.length left (incoming db planTasks)
  pure (waves.zipIdx.map fun (tasks, wave) => ⟨wave, tasks⟩)

end PlanReadiness

def OpenMember (db : Database) (planId : PlanId) (task : TaskId) : Prop :=
  IsMember db planId task ∧
    ∃ status, db.statusOf task = some status ∧ status.isTerminal = false

/-- An unfinished predecessor: the plan makes the task depend on it, or it blocks the task. -/
def Precedes (db : Database) (planId : PlanId) (task before : TaskId) : Prop :=
  ((∃ member ∈ listTasksOrdered db planId, member.taskId = task ∧ before ∈ member.dependsOn) ∨
    ∃ relation ∈ db.relations, relation.kind = .blocks ∧ relation.source = before ∧ relation.target = task) ∧
  db.statusOf before ≠ some .done

/-- A task depends, transitively, on a predecessor that cannot finish inside the plan: one
that is no open member, or is on a cycle. -/
def CannotFollow (db : Database) (planId : PlanId) (task : TaskId) : Prop :=
  ∃ before, Relation.TransGen (Precedes db planId) task before ∧
    (¬OpenMember db planId before ∨ Relation.TransGen (Precedes db planId) before before)

/-- The waves of a plan are disjoint, hold the open members that can follow their
predecessors, and each task comes after its predecessors in the plan. -/
structure FansOut (db : Database) (planId : PlanId) (waves : List PlanFanoutWave) : Prop where
  disjoint : (waves.flatMap PlanFanoutWave.tasks).Nodup
  exact : ∀ task, task ∈ waves.flatMap PlanFanoutWave.tasks ↔ OpenMember db planId task ∧ ¬CannotFollow db planId task
  earlier : ∀ before wave after, waves = before ++ wave :: after → ∀ task ∈ wave.tasks, ∀ other,
    Precedes db planId task other → OpenMember db planId other → other ∈ before.flatMap PlanFanoutWave.tasks

/-- No task that can follow its predecessors depends on a task that was done outside of the plan. -/
def DoneInside (db : Database) (planId : PlanId) : Prop :=
  ∀ member ∈ listTasksOrdered db planId, OpenMember db planId member.taskId →
    ¬CannotFollow db planId member.taskId → ∀ dep ∈ member.dependsOn, db.statusOf dep = some .done →
      IsMember db planId dep

namespace PlanReadiness

theorem taskDone_iff : taskDone db task = true ↔ db.statusOf task = some .done := by
  unfold taskDone statusOf
  cases db.tasks.find? task <;> simp

theorem mem_remaining : task ∈ remaining db (listTasksOrdered db planId) ↔ OpenMember db planId task := by
  have hOpen : ∀ id, ((db.tasks.find? id).any fun task => !task.status.isTerminal) = true ↔
      ∃ status, db.statusOf id = some status ∧ status.isTerminal = false := by
    intro id
    unfold statusOf
    cases db.tasks.find? id <;> simp
  unfold remaining OpenMember
  rw [mem_map]
  simp only [mem_filter, hOpen]
  constructor
  · rintro ⟨member, ⟨hMem, hStatus⟩, rfl⟩
    exact ⟨⟨member, hMem, rfl⟩, hStatus⟩
  · rintro ⟨⟨member, hMem, rfl⟩, hStatus⟩
    exact ⟨member, ⟨hMem, hStatus⟩, rfl⟩

/-- What an open member waits for: its unfinished predecessors, and what it depends on that
is done outside of the plan. -/
theorem mem_incoming (hTask : OpenMember db planId task) :
    other ∈ incoming db (listTasksOrdered db planId) task ↔ Precedes db planId task other ∨
      ((∃ member ∈ listTasksOrdered db planId, member.taskId = task ∧ other ∈ member.dependsOn) ∧
        db.statusOf other = some .done ∧ ∀ member ∈ listTasksOrdered db planId, member.taskId ≠ other) := by
  have hMember : task ∈ (listTasksOrdered db planId).map taskId := mem_map.mpr hTask.1
  unfold incoming
  dsimp only
  rw [if_pos (mem_remaining.mpr hTask), mem_append]
  simp only [mem_flatMap, mem_filter, mem_map, RelationRepo.listByTaskIds, mem_orderBy, mem_rows,
    Bool.not_eq_true', Bool.and_eq_true, Bool.or_eq_true, decide_eq_true_eq, ← Bool.not_eq_true, taskDone_iff]
  constructor
  · rintro (⟨member, ⟨hMem, hIs⟩, hDep, hNot⟩ | ⟨⟨relation, ⟨⟨hMem, -⟩, hKind, hTarget⟩, hSource⟩, hOpen⟩)
    · by_cases hDone : db.statusOf other = some .done
      · exact .inr ⟨⟨member, hMem, hIs, hDep⟩, hDone, fun found hFound hSame =>
          hNot ⟨⟨found, hFound, hSame⟩, hDone⟩⟩
      · exact .inl ⟨.inl ⟨member, hMem, hIs, hDep⟩, hDone⟩
    · exact .inl ⟨.inr ⟨relation, hMem, hKind, hSource, hTarget⟩, hOpen⟩
  · rintro (⟨⟨member, hMem, hIs, hDep⟩ | ⟨relation, hMem, hKind, hSource, hTarget⟩, hOpen⟩ |
      ⟨⟨member, hMem, hIs, hDep⟩, -, hOutside⟩)
    · exact .inl ⟨member, ⟨hMem, hIs⟩, hDep, fun hBoth => hOpen hBoth.2⟩
    · exact .inr ⟨⟨relation, ⟨⟨hMem, .inr (hTarget ▸ mem_map.mp hMember)⟩, hKind, hTarget⟩, hSource⟩, hOpen⟩
    · exact .inl ⟨member, ⟨hMem, hIs⟩, hDep, fun hBoth => by
        obtain ⟨⟨found, hFound, hSame⟩, _⟩ := hBoth
        exact hOutside found hFound hSame⟩

/-- The tasks that the fan-out can place, as it reads their predecessors. -/
abbrev Placed (db : Database) (planId : PlanId) : TaskId → Prop :=
  Waves.Grounded (· ∈ remaining db (listTasksOrdered db planId))
    fun task other => other ∈ incoming db (listTasksOrdered db planId) task

theorem placed_open (h : Placed db planId task) : OpenMember db planId task := mem_remaining.mp h.available

theorem cannotFollow_iff (hTask : OpenMember db planId task) : CannotFollow db planId task ↔
    Waves.HeldUp (OpenMember db planId) (Precedes db planId) task := by
  constructor
  · rintro ⟨before, hPath, hEnd⟩
    exact ⟨before, hPath.to_reflTransGen, hEnd⟩
  · rintro ⟨before, hPath, hEnd⟩
    rcases Relation.reflTransGen_iff_eq_or_transGen.mp hPath with rfl | hPath
    · exact ⟨before, hEnd.resolve_left (not_not.mpr hTask), .inr (hEnd.resolve_left (not_not.mpr hTask))⟩
    · exact ⟨before, hPath, hEnd⟩

theorem follows_iff : OpenMember db planId task ∧ ¬CannotFollow db planId task ↔
    Waves.Grounded (OpenMember db planId) (Precedes db planId) task := by
  have hItems : ∀ task, OpenMember db planId task → task ∈ (listTasksOrdered db planId).map taskId :=
    fun task h => mem_map.mpr h.1
  constructor
  · rintro ⟨hTask, hFree⟩
    exact (Waves.grounded_iff hItems).mpr fun hHeld => hFree ((cannotFollow_iff hTask).mpr hHeld)
  · intro h
    exact ⟨h.available, fun hNot => (Waves.grounded_iff hItems).mp h ((cannotFollow_iff h.available).mp hNot)⟩

theorem follows_of_placed (h : Placed db planId task) : Waves.Grounded (OpenMember db planId) (Precedes db planId) task := by
  induction h with
  | @go task hHere _ ih =>
    have hTask := mem_remaining.mp hHere
    exact .go hTask fun other hBefore => ih other ((mem_incoming hTask).mpr (.inl hBefore))

theorem placed_of_follows (hInside : DoneInside db planId) (h : Waves.Grounded (OpenMember db planId) (Precedes db planId) task) :
    Placed db planId task := by
  induction h with
  | @go task hTask hBefore ih =>
    refine .go (mem_remaining.mpr hTask) fun other hMem => ?_
    rcases (mem_incoming hTask).mp hMem with hPrecedes | ⟨⟨member, hIn, rfl, hDep⟩, hDone, hOutside⟩
    · exact ih other hPrecedes
    · obtain ⟨found, hFound, hSame⟩ := hInside member hIn hTask (follows_iff.mpr (.go hTask hBefore)).2 other hDep hDone
      exact absurd hSame (hOutside found hFound)

theorem flatMap_waves (waves : List (List TaskId)) (first : Nat) :
    ((waves.zipIdx first).map fun (tasks, wave) => (⟨wave, tasks⟩ : PlanFanoutWave)).flatMap PlanFanoutWave.tasks =
      waves.flatten := by
  induction waves generalizing first with
  | nil => rfl
  | cons wave rest ih => rw [zipIdx_cons, map_cons, flatMap_cons, ih, flatten_cons]

theorem nodup_members (db : Database) (planId : PlanId) : ((listTasksOrdered db planId).map taskId).Nodup := by
  have hRows : (listTasksOrdered db planId).Perm (db.planTasks.rows.filter fun member => member.planId = planId) :=
    perm_insertionSort _ _
  refine (hRows.map _).nodup_iff.mpr ((List.Nodup.of_map _ db.planTasks.nodup).filter _ |>.map_on ?_)
  intro left hLeft right hRight hSame
  obtain ⟨hLeftIn, hLeftPlan⟩ := mem_filter.mp hLeft
  obtain ⟨hRightIn, hRightPlan⟩ := mem_filter.mp hRight
  refine KeyedTable.eq_of_key_eq hLeftIn hRightIn ?_
  rw [key, key, of_decide_eq_true hLeftPlan, of_decide_eq_true hRightPlan, hSame]

/-- The fan-out of a plan comes to its end. Its waves are right exactly where no task that
could follow its predecessors depends on one that was done outside of the plan. -/
theorem plan_fanout_exact {plan : Plan} (hPlan : db.plans.find? planId = some plan) :
    ∃ waves, planFanout db planId = .ok waves ∧ (FansOut db planId waves ↔ DoneInside db planId) := by
  let order := (listTasksOrdered db planId).map PlanTask.taskId
  let left := remaining db (listTasksOrdered db planId)
  let peeled := Waves.peel order left.length left (incoming db (listTasksOrdered db planId))
  have hOrder : left ⊆ order := fun task hMem => mem_map.mpr (mem_remaining.mp hMem).1
  have hPlaced : ∀ task, task ∈ peeled.flatten ↔ Placed db planId task := fun task => Waves.mem_peel hOrder (Nat.le_refl _)
  refine ⟨peeled.zipIdx.map fun (tasks, wave) => ⟨wave, tasks⟩, ?_, fun hRight => ?_, fun hInside => ?_⟩
  · unfold planFanout requirePlan
    rw [hPlan]
    rfl
  · intro member hMem hTask hFollows dep hDep hDone
    by_contra hOutside
    have hIn : member.taskId ∈ peeled.flatten := by
      rw [← flatMap_waves peeled 0]
      exact (hRight.exact _).mpr ⟨hTask, hFollows⟩
    have hWaits := (mem_incoming hTask).mpr (.inr ⟨⟨member, hMem, rfl, hDep⟩, hDone,
      fun other hOther hSame => hOutside ⟨other, hOther, hSame⟩⟩)
    obtain ⟨-, hBefore⟩ := (hPlaced _).mp hIn
    exact hOutside (placed_open (hBefore dep hWaits)).1
  · refine ⟨?_, fun task => ?_, ?_⟩
    · rw [flatMap_waves]
      exact Waves.nodup_peel hOrder (nodup_members db planId) (Nat.le_refl _)
    · rw [flatMap_waves, hPlaced, follows_iff]
      exact ⟨follows_of_placed, placed_of_follows hInside⟩
    · intro before wave after hWaves task hMem other hPrecedes _
      obtain ⟨front, last, hPeeled, rfl, hLast⟩ := map_eq_append_iff.mp hWaves
      obtain ⟨⟨tasks, index⟩, rest, rfl, rfl, -⟩ := map_eq_cons_iff.mp hLast
      have hSplit : peeled = front.map Prod.fst ++ tasks :: rest.map Prod.fst := by
        have hFirst := congrArg (List.map Prod.fst) hPeeled
        rwa [zipIdx_map_fst, map_append, map_cons] at hFirst
      have hTask : OpenMember db planId task := by
        refine placed_open ((hPlaced task).mp ?_)
        rw [hSplit, flatten_append, flatten_cons]
        exact mem_append_right _ (mem_append_left _ hMem)
      have hEarlier := Waves.peel_earlier hSplit hMem other ((mem_incoming hTask).mpr (.inl hPrecedes))
      rw [← flatMap_def] at hEarlier
      rwa [flatMap_map]

theorem plan_fanout_exact_active : ∃ waves, planFanout activePlan plannedId = .ok waves ∧
    (FansOut activePlan plannedId waves ↔ DoneInside activePlan plannedId) := by
  obtain ⟨plan, hFound, -⟩ := activePlan_found
  exact plan_fanout_exact hFound

/-- The task depends on the one beside the plan, which is done. -/
private def waitsOutside : Database :=
  plannedWith [.plan (.addPlanTask plannedId ⟨7⟩ none (some [⟨8⟩])), .task (.completeTask ⟨8⟩ none)]

/-- Nothing that the task waits for is unfinished, and no wave holds it. -/
theorem plan_fanout_drops_task :
    planFanout waitsOutside plannedId = .ok [] ∧ ¬FansOut waitsOutside plannedId [] := by
  refine ⟨by decide +kernel, fun hRight => ?_⟩
  have hMembers : ∀ member ∈ listTasksOrdered waitsOutside plannedId, ∀ dep ∈ member.dependsOn,
      waitsOutside.statusOf dep = some .done := by decide +kernel
  have hRelations : waitsOutside.relations.rows = [] := by decide +kernel
  have hOpen : OpenMember waitsOutside plannedId ⟨7⟩ := ⟨by decide +kernel, .todo, by decide +kernel, rfl⟩
  have hNone : ∀ other, ¬Precedes waitsOutside plannedId ⟨7⟩ other := by
    rintro other ⟨⟨member, hIn, -, hDep⟩ | ⟨relation, hIn, -⟩, hNotDone⟩
    · exact hNotDone (hMembers member hIn other hDep)
    · exact not_mem_nil (hRelations ▸ KeyedTable.mem_rows.mpr hIn)
  refine not_mem_nil ((hRight.exact ⟨7⟩).mpr ⟨hOpen, ?_⟩)
  rintro ⟨last, hPath, -⟩
  obtain ⟨other, hFirst, -⟩ := Relation.TransGen.head'_iff.mp hPath
  exact hNone other hFirst

end PlanReadiness

structure PlanGraphNode where
  taskId : TaskId
  position : Nat
  dependsOn : List TaskId
  title : String
  status : Status
  priority : Priority
  deriving DecidableEq

structure PlanGraphEdge where
  source : TaskId
  target : TaskId
  kind : String
  deriving DecidableEq

structure PlanGraph where
  nodes : List PlanGraphNode
  edges : List PlanGraphEdge
  deriving DecidableEq

def PlanReadiness.nodeOf (db : Database) (pt : PlanTask) : Option PlanGraphNode :=
  (db.tasks.find? pt.taskId).map fun task =>
    ⟨pt.taskId, pt.position, pt.dependsOn, task.title, task.status, task.priority⟩

/-- The read model of the direct tasks of a plan, with the edges between them. -/
def PlanReadiness.planGraph (db : Database) (planId : PlanId) : Result PlanGraph := do
  let _ ← requirePlan db planId
  let planTasks := listTasksOrdered db planId
  let taskIds := planTasks.map taskId
  let nodes := planTasks.filterMap (nodeOf db)
  let dependencies := planTasks.flatMap fun pt =>
    (pt.dependsOn.filter fun dep => dep ∈ taskIds).map fun dep => ⟨dep, pt.taskId, "depends_on"⟩
  let blocks := (RelationRepo.listByTaskIds db.relations taskIds).filter fun rel =>
    rel.kind = .blocks && rel.source ∈ taskIds && rel.target ∈ taskIds
  pure ⟨nodes, dependencies ++ blocks.map fun rel => ⟨rel.source, rel.target, "blocks"⟩⟩

structure PlanProgressView where
  active : List PlanGraphNode
  blocked : List PlanGraphNode
  next : List PlanGraphNode

namespace PlanProgressView

/-- The statuses of the nodes, the last one where an id came twice. -/
def statusById (nodes : List PlanGraphNode) (id : TaskId) : Option Status :=
  (nodes.reverse.find? fun node => node.taskId = id).map PlanGraphNode.status

def nodeIsBlocked (graph : PlanGraph) (node : PlanGraphNode) : Bool :=
  let unfinished := fun id => match statusById graph.nodes id with
    | some status => status ≠ .done
    | none => true
  node.dependsOn.any unfinished ||
    graph.edges.any fun edge => edge.kind = "blocks" && edge.target = node.taskId && unfinished edge.source

/-- Each group shows five tasks at most. -/
def planProgressView (graph : PlanGraph) : PlanProgressView :=
  let shown := graph.nodes.filter fun node => !node.status.isTerminal
  ⟨(shown.filter fun node => node.status = .inProgress || node.status = .inReview).take 5,
    (shown.filter fun node => nodeIsBlocked graph node).take 5,
    (shown.filter fun node => !nodeIsBlocked graph node && (node.status = .inbox || node.status = .todo)).take 5⟩

end PlanProgressView

def IsBlocked (db : Database) (task : TaskId) : Prop :=
  ∃ relation ∈ db.relations, relation.kind = .blocks ∧ relation.target = task ∧
    ∃ status, db.statusOf relation.source = some status ∧ status ≠ .done

theorem listActiveBlockers_iff : listActiveBlockers db.relations db.tasks task ≠ [] ↔ IsBlocked db task := by
  rw [← isEmpty_eq_false_iff, isEmpty_eq_false_iff_exists_mem]
  simp only [mem_listActiveBlockers]
  constructor
  · rintro ⟨_, ⟨relation, hMem, rfl, hTarget, hKind⟩, blocker, hBlocker, hIs, hOpen⟩
    refine ⟨relation, hMem, hKind, hTarget, blocker.status, ?_, hOpen⟩
    rw [statusOf, ← hIs, find?_of_mem hBlocker, Option.map_some]
  · rintro ⟨relation, hMem, hKind, hTarget, status, hStatus, hOpen⟩
    obtain ⟨blocker, hFound, rfl⟩ := Option.map_eq_some_iff.mp hStatus
    exact ⟨relation.source, ⟨relation, hMem, rfl, hTarget, hKind⟩, blocker, KeyedTable.mem_of_find? hFound,
      KeyedTable.key_of_find? hFound, hOpen⟩

theorem unblocked_iff : NextTaskResolver.unblocked (some db.relations) db.tasks task = false ↔ IsBlocked db task := by
  rw [← listActiveBlockers_iff, NextTaskResolver.unblocked, ne_eq, ← List.isEmpty_iff, Bool.not_eq_true]

theorem openBlockers_iff : PlanReadiness.openBlockers db task ≠ [] ↔ IsBlocked db task := by
  rw [← listActiveBlockers_iff, ← isEmpty_eq_false_iff, ← isEmpty_eq_false_iff,
    isEmpty_eq_false_iff_exists_mem, isEmpty_eq_false_iff_exists_mem]
  simp only [mem_listActiveBlockers, PlanReadiness.openBlockers, mem_map, mem_filter,
    RelationRepo.mem_listBlockers, Bool.and_eq_true, decide_eq_true_eq, mem_rows]
  constructor
  · rintro ⟨_, blocker, ⟨hBlocker, ⟨relation, ⟨hMem, hTarget, hKind⟩, hSource⟩, hOpen⟩, rfl⟩
    exact ⟨blocker.id, ⟨relation, hMem, hSource, hTarget, hKind⟩, blocker, hBlocker, rfl, hOpen⟩
  · rintro ⟨_, ⟨relation, hMem, hSource, hTarget, hKind⟩, blocker, hBlocker, rfl, hOpen⟩
    exact ⟨_, blocker, ⟨hBlocker, ⟨relation, ⟨hMem, hTarget, hKind⟩, hSource⟩, hOpen⟩, rfl⟩

theorem PlanReadiness.canStart_blockers {env : Env} {gate : Option (LifecycleGate × Actor)} {answer : CanStart}
    (h : canStart db env gate task = .ok answer) : answer.blockers ≠ [] ↔ IsBlocked db task := by
  unfold canStart at h
  obtain ⟨row, hRow, h⟩ := Outcome.bind_eq_ok.mp h
  obtain ⟨rules, -, h⟩ := Outcome.bind_eq_ok.mp h
  cases h
  rw [show row.id = task from KeyedTable.key_of_find? (Outcome.okOr_eq_ok.mp hRow)]
  exact openBlockers_iff

def BlockersExist (db : Database) (task : TaskId) : Prop :=
  ∀ relation ∈ db.relations, relation.kind = .blocks → relation.target = task →
    ∃ status, db.statusOf relation.source = some status

def BlockersInside (db : Database) (planId : PlanId) (task : TaskId) : Prop :=
  ∀ relation ∈ db.relations, relation.kind = .blocks → relation.target = task →
    IsMember db planId relation.source

theorem isBlocked_iff_precedes (hExist : BlockersExist db task)
    (hNoDeps : ∀ member ∈ listTasksOrdered db planId, member.dependsOn = []) :
    IsBlocked db task ↔ ∃ before, Precedes db planId task before := by
  constructor
  · rintro ⟨relation, hMem, hKind, hTarget, status, hStatus, hOpen⟩
    exact ⟨relation.source, .inr ⟨relation, hMem, hKind, rfl, hTarget⟩, fun hDone =>
      hOpen (Option.some.inj (hStatus.symm.trans hDone))⟩
  · rintro ⟨before, ⟨member, hIn, -, hDep⟩ | ⟨relation, hMem, hKind, rfl, hTarget⟩, hOpen⟩
    · exact absurd hDep (hNoDeps member hIn ▸ not_mem_nil)
    · obtain ⟨status, hStatus⟩ := hExist relation hMem hKind hTarget
      exact ⟨relation, hMem, hKind, hTarget, status, hStatus, fun hDone => hOpen (hDone ▸ hStatus)⟩

theorem PlanReadiness.first_wave {waves : List PlanFanoutWave} (hTask : OpenMember db planId task)
    (hExist : BlockersExist db task) (hNoDeps : ∀ member ∈ listTasksOrdered db planId, member.dependsOn = [])
    (h : planFanout db planId = .ok waves) : (¬∃ wave ∈ waves.head?, task ∈ wave.tasks) ↔ IsBlocked db task := by
  unfold planFanout at h
  obtain ⟨-, -, h⟩ := Outcome.bind_eq_ok.mp h
  cases h
  have hReady := @Waves.head_peel _ _ _ ((listTasksOrdered db planId).map taskId) _
    (incoming db (listTasksOrdered db planId)) _ (mem_remaining.mpr hTask) (Nat.le_refl _)
  have hHead : ∀ waves : List (List TaskId), (∃ wave ∈ (waves.zipIdx.map fun (tasks, wave) =>
      (⟨wave, tasks⟩ : PlanFanoutWave)).head?, task ∈ wave.tasks) ↔ ∃ wave ∈ waves.head?, task ∈ wave := by
    rintro (_ | ⟨wave, waves⟩) <;> simp
  rw [hHead, hReady, Waves.mem_ready, isBlocked_iff_precedes hExist hNoDeps]
  have hNone : incoming db (listTasksOrdered db planId) task = [] ↔ ¬∃ before, Precedes db planId task before := by
    rw [eq_nil_iff_forall_not_mem, not_exists]
    refine forall_congr' fun other => not_congr ((mem_incoming hTask).trans (or_iff_left ?_))
    rintro ⟨⟨member, hIn, -, hDep⟩, -⟩
    exact absurd hDep (hNoDeps member hIn ▸ not_mem_nil)
  rw [hNone]
  constructor
  · intro hNot
    exact not_not.mp fun hFree => hNot ⟨mem_map.mpr hTask.1, mem_remaining.mpr hTask, hFree⟩
  · rintro hSome ⟨-, -, hFree⟩
    exact hFree hSome

theorem statusById_member (hMember : ∃ member ∈ listTasksOrdered db planId, member.taskId = other) :
    PlanProgressView.statusById ((listTasksOrdered db planId).filterMap (PlanReadiness.nodeOf db)) other = db.statusOf other := by
  unfold PlanProgressView.statusById
  cases hFind : ((listTasksOrdered db planId).filterMap (PlanReadiness.nodeOf db)).reverse.find? fun node => node.taskId = other with
  | some node =>
    have hIs : node.taskId = other := by simpa using find?_some hFind
    obtain ⟨member, -, hNode⟩ := mem_filterMap.mp (mem_reverse.mp (mem_of_find?_eq_some hFind))
    obtain ⟨row, hRow, rfl⟩ := Option.map_eq_some_iff.mp hNode
    rw [statusOf, ← hIs, hRow]
    rfl
  | none =>
    obtain ⟨member, hMem, rfl⟩ := hMember
    cases hRow : db.tasks.find? member.taskId with
    | none => rw [statusOf, hRow, Option.map_none, Option.map_none]
    | some row =>
      refine absurd (decide_eq_true rfl) (find?_eq_none.mp hFind
        ⟨member.taskId, member.position, member.dependsOn, row.title, row.status, row.priority⟩ ?_)
      refine mem_reverse.mpr (mem_filterMap.mpr ⟨member, hMem, ?_⟩)
      rw [PlanReadiness.nodeOf, hRow, Option.map_some]

/-- On the graph of a plan that has no dependencies, a node is blocked by the relations. -/
theorem nodeIsBlocked_iff {graph : PlanGraph} {node : PlanGraphNode} (hInside : BlockersInside db planId node.taskId)
    (hExist : BlockersExist db node.taskId)
    (hNoDeps : ∀ member ∈ listTasksOrdered db planId, member.dependsOn = [])
    (h : PlanReadiness.planGraph db planId = .ok graph) (hNode : node ∈ graph.nodes) :
    PlanProgressView.nodeIsBlocked graph node = true ↔ IsBlocked db node.taskId := by
  unfold PlanReadiness.planGraph at h
  obtain ⟨-, -, h⟩ := Outcome.bind_eq_ok.mp h
  cases h
  obtain ⟨member, hMember, hIs⟩ := mem_filterMap.mp hNode
  obtain ⟨row, -, rfl⟩ := Option.map_eq_some_iff.mp hIs
  have hDeps := hNoDeps member hMember
  have hNoEdges : ((listTasksOrdered db planId).flatMap fun pt =>
      (pt.dependsOn.filter fun dep => dep ∈ (listTasksOrdered db planId).map taskId).map fun dep =>
        (⟨dep, pt.taskId, "depends_on"⟩ : PlanGraphEdge)) = [] :=
    flatMap_eq_nil_iff.mpr fun pt hPt => by rw [hNoDeps pt hPt]; rfl
  unfold PlanProgressView.nodeIsBlocked
  simp only [hDeps, hNoEdges, any_nil, Bool.false_or, nil_append]
  simp only [any_eq_true, mem_map, mem_filter, RelationRepo.listByTaskIds, mem_orderBy, mem_rows,
    Bool.and_eq_true, Bool.or_eq_true, decide_eq_true_eq]
  constructor
  · rintro ⟨_, ⟨relation, ⟨⟨hMem, -⟩, ⟨hKind, hSource⟩, -⟩, rfl⟩, ⟨-, hTarget⟩, hOpen⟩
    obtain ⟨status, hStatus⟩ := hExist relation hMem hKind hTarget
    rw [statusById_member hSource, hStatus] at hOpen
    exact ⟨relation, hMem, hKind, hTarget, status, hStatus, of_decide_eq_true hOpen⟩
  · rintro ⟨relation, hMem, hKind, hTarget, status, hStatus, hOpen⟩
    have hSource := hInside relation hMem hKind hTarget
    refine ⟨_, ⟨relation, ⟨⟨hMem, .inl hSource⟩, ⟨hKind, hSource⟩, member, hMember, hTarget.symm⟩, rfl⟩,
      ⟨rfl, hTarget⟩, ?_⟩
    rw [statusById_member hSource, hStatus]
    exact decide_eq_true hOpen

theorem exists_node (hTask : OpenMember db planId task) {graph : PlanGraph} (h : PlanReadiness.planGraph db planId = .ok graph) :
    ∃ node ∈ graph.nodes, node.taskId = task ∧ node.status.isTerminal = false := by
  unfold PlanReadiness.planGraph at h
  obtain ⟨-, -, h⟩ := Outcome.bind_eq_ok.mp h
  cases h
  obtain ⟨⟨member, hMember, rfl⟩, status, hStatus, hOpen⟩ := hTask
  obtain ⟨row, hRow, rfl⟩ := Option.map_eq_some_iff.mp hStatus
  exact ⟨_, mem_filterMap.mpr ⟨member, hMember, Option.map_eq_some_iff.mpr ⟨row, hRow, rfl⟩⟩, rfl, hOpen⟩

/-- A group that does not show a task is full. -/
theorem mem_take_or {α : Type} {items : List α} {x : α} (count : Nat) (hMem : x ∈ items) :
    x ∈ items.take count ∨ (items.take count).length = count := by
  rcases Nat.le_total items.length count with hFew | hMany
  · rw [take_of_length_le hFew]
    exact .inl hMem
  · exact .inr (length_take_of_le hMany)

/-- Where no member has dependencies, the next-task resolver, the completion guard and the
can-start check agree on whether a task is blocked; so does the first wave of the fan-out
where the blockers exist, and the plan view, in the five tasks that it shows, where they
are members of the plan. -/
theorem readiness_agrees {plan : Plan} (hPlan : db.plans.find? planId = some plan)
    (hNoDeps : ∀ member ∈ listTasksOrdered db planId, member.dependsOn = [])
    (hTask : OpenMember db planId task) :
    (NextTaskResolver.unblocked (some db.relations) db.tasks task = false ↔ IsBlocked db task) ∧
    (RelationEnforcement.listActiveBlockers db.relations db.tasks task ≠ [] ↔ IsBlocked db task) ∧
    (∀ env gate answer, PlanReadiness.canStart db env gate task = .ok answer →
      (answer.blockers ≠ [] ↔ IsBlocked db task)) ∧
    (BlockersExist db task → ∃ waves, PlanReadiness.planFanout db planId = .ok waves ∧
      ((¬∃ wave ∈ waves.head?, task ∈ wave.tasks) ↔ IsBlocked db task)) ∧
    (BlockersExist db task → BlockersInside db planId task → ∃ graph, PlanReadiness.planGraph db planId = .ok graph ∧
      ∃ node ∈ graph.nodes, node.taskId = task ∧
        (node ∈ (PlanProgressView.planProgressView graph).blocked → IsBlocked db task) ∧
        (IsBlocked db task → node ∈ (PlanProgressView.planProgressView graph).blocked ∨
          (PlanProgressView.planProgressView graph).blocked.length = 5)) := by
  refine ⟨unblocked_iff, listActiveBlockers_iff, fun _ _ _ => PlanReadiness.canStart_blockers, fun hExist => ?_,
    fun hExist hInside => ?_⟩
  · obtain ⟨waves, hWaves⟩ : ∃ waves, PlanReadiness.planFanout db planId = .ok waves := by
      unfold PlanReadiness.planFanout requirePlan
      rw [hPlan]
      exact ⟨_, rfl⟩
    exact ⟨waves, hWaves, PlanReadiness.first_wave hTask hExist hNoDeps hWaves⟩
  · obtain ⟨graph, hGraph⟩ : ∃ graph, PlanReadiness.planGraph db planId = .ok graph := by
      unfold PlanReadiness.planGraph requirePlan
      rw [hPlan]
      exact ⟨_, rfl⟩
    obtain ⟨node, hNode, rfl, hOpen⟩ := exists_node hTask hGraph
    have hBlocked := nodeIsBlocked_iff hInside hExist hNoDeps hGraph hNode
    refine ⟨graph, hGraph, node, hNode, rfl, fun hShown => ?_, fun h => mem_take_or 5 ?_⟩
    · exact hBlocked.mp (mem_filter.mp (mem_of_mem_take hShown)).2
    · refine mem_filter.mpr ⟨mem_filter.mpr ⟨hNode, ?_⟩, hBlocked.mpr h⟩
      rw [hOpen]
      rfl

theorem readiness_agrees_active :
    NextTaskResolver.unblocked (some activePlan.relations) activePlan.tasks ⟨7⟩ = false ↔ IsBlocked activePlan ⟨7⟩ := by
  obtain ⟨plan, hFound, -⟩ := activePlan_found
  obtain ⟨-, -, hMember, hStatus, hNoDeps⟩ := activePlan_computed
  exact (readiness_agrees hFound hNoDeps ⟨hMember, .todo, hStatus, rfl⟩).1

/-- The task beside the plan blocks the one in it. -/
private def blockedOutside : Database :=
  plannedWith [.plan (.addPlanTask plannedId ⟨7⟩ none none), .relation (.linkTasks ⟨8⟩ ⟨7⟩ .blocks)]

private def blockedByMissing : Database :=
  { activePlan with relations := activePlan.relations.upsert ⟨⟨1⟩, ⟨9⟩, ⟨7⟩, .blocks, 0, .anyUser⟩ }

/-- The completion of a task that the view shows as next is refused; and one that the guard
lets pass is in no wave. -/
theorem readiness_disagrees :
    (RelationEnforcement.listActiveBlockers blockedOutside.relations blockedOutside.tasks ⟨7⟩ ≠ [] ∧
      (PlanReadiness.planGraph blockedOutside plannedId).toOption.map (fun graph =>
        ((PlanProgressView.planProgressView graph).blocked, (PlanProgressView.planProgressView graph).next.map
          PlanGraphNode.taskId)) = some ([], [⟨7⟩])) ∧
    RelationEnforcement.listActiveBlockers blockedByMissing.relations blockedByMissing.tasks ⟨7⟩ = [] ∧
      PlanReadiness.planFanout blockedByMissing plannedId = .ok [] := by
  decide +kernel

end Daruma
