import Daruma.Core.ClosedPlans
import Daruma.Core.TerminatedClaims

/-! The plans that an accepted command closes with its work. Every command leaves what it
reaches reconciled, except a patch that gives the last open task of a plan a terminal
status: the overlay does not read patches. -/
namespace Daruma

open Outcome List
open Reconciliation (Reconciled Reflects noted closing closure planReconciliations planStatus)
open Projections (applyEvents)
open Reconciliation (planReconciliations_drains brings Pending noted_reads drains_noted completed fires_iff
  clear_iff closes_iff)
open AutoAppend (autoAppendLogs)

namespace Handler

variable {config : Config} {env : Env} {caller : Caller} {command : Command} {claimed : Actor} {db : Database}
  {batch : List Event} {relations : Relations} {trail : GateStage.Trail} {persisted : List EventEnvelope}
  {appended applied : Database}

theorem Accepted.lifecyclesOf
    (h : Accepted config env caller command claimed db batch relations trail persisted appended)
    (hTakesIn : command.takesIn = false)
    (hApplied : applyEvents (env.part 4) persisted appended = (.ok (), applied)) (id : TaskId) :
    applied.lifecycleOf id = lifecycleAfter batch id (db.lifecycleOf id) := by
  obtain ⟨first, last, hPayloads, hFirst, hLast⟩ := h.surrounded hTakesIn
  rw [h.lifecycles hApplied, hPayloads, lifecycleAfter_append, lifecycleAfter_append,
    lifecycleAfter_eq_self fun event hMem row => lifecycle_of_isAudit (hFirst event hMem) id row]
  refine lifecycleAfter_eq_self fun event hMem row => ?_
  rcases hLast event hMem with hAudit | ⟨_, _, _, rfl⟩
  · exact lifecycle_of_isAudit hAudit id row
  · rfl

variable {final : Pending} {events : List Event}

/-- The database after a call is what an overlay says, when the overlay says of every
table what the batch does to it. -/
theorem Accepted.reflects {archived : PlanId → Bool}
    (h : Accepted config env caller command claimed db batch relations trail persisted appended)
    (hTakesIn : command.takesIn = false)
    (hApplied : applyEvents (env.part 4) persisted appended = (.ok (), applied))
    (hTracked : ∀ event ∈ batch, event.isTracked = true)
    (hTasks : ∀ id row, (lifecycleAfter batch id row).map Prod.fst =
      (row.map Prod.fst).map fun status => (final.taskStatuses.lookup id).getD status)
    (hMembers : ∀ members, batch.foldl (fun members event => event.onMembers members) members = members)
    (hPlans : ∀ id card, batch.foldl (fun card event => event.onPlan id card) card = card.map fun card =>
      ⟨(final.planStatuses.lookup id).getD card.status, card.archived || archived id, card.parent⟩)
    (hRuns : ∀ id, id ∈ final.endedRuns ↔ ∃ event ∈ batch, event.endedRun = some id)
    (hEnds : endsPlan command = true → ∀ plan : Plan, command.endedPlan = some plan.id →
      planStatus final plan ≠ .active) :
    Reflects db final archived (autoAppendLogs config (env.part 5) applied persisted) := by
  have hStanding : (autoAppendLogs config (env.part 5) applied persisted).standing =
      standingAfter batch appended.standing :=
    (AutoAppend.autoAppendLogs_standing _ _).trans (h.standing hTakesIn hTracked hApplied)
  have hRun : ∀ id, (autoAppendLogs config (env.part 5) applied persisted).standing.run id =
      (appended.standing.run id).map fun run => (run.1, run.2 && batch.all fun event => event.endedRun ≠ some id) := by
    intro id
    rw [hStanding]
    exact standingAfter_run id
  have hGoesOn : ∀ id, (batch.all fun event => event.endedRun ≠ some id) = true ↔ id ∉ final.endedRuns := by
    intro id
    rw [hRuns, all_eq_true]
    constructor
    · rintro hAll ⟨event, hMem, hIs⟩
      exact of_decide_eq_true (hAll event hMem) hIs
    · exact fun hNone event hMem => decide_eq_true fun hIs => hNone ⟨event, hMem, hIs⟩
  obtain ⟨_, _, _, _, _, hFrame⟩ := h.frame
  refine ⟨?_, fun id => ?_, fun id => ?_, fun id planId hAfter => ?_, fun id planId hActive hStays => ?_⟩
  · change Standing.members (Database.standing _) = _
    rw [hStanding, standingAfter_members, hMembers, hFrame]
    rfl
  · rw [Database.statusOf_eq, AutoAppend.autoAppendLogs_lifecycles, h.lifecyclesOf hTakesIn hApplied, hTasks,
      Database.statusOf_eq]
  · change Standing.plan (Database.standing _) id = _
    rw [hStanding, standingAfter_plan, hPlans, hFrame]
    change ((db.plans.find? id).map Plan.card).map _ = _
    rw [Option.map_map]
    cases hFound : db.plans.find? id with
    | none => rfl
    | some plan =>
      obtain rfl : plan.id = id := KeyedTable.key_of_find? hFound
      rfl
  · rw [hRun, Option.map_eq_some_iff] at hAfter
    obtain ⟨⟨inPlan, goesOn⟩, hBefore, hIs⟩ := hAfter
    obtain ⟨rfl, hGoes⟩ := Prod.mk.inj hIs
    have hBoth : (goesOn && batch.all fun event => event.endedRun ≠ some id) = true := hGoes
    obtain ⟨hOn, hAll⟩ := Bool.and_eq_true_iff.mp hBoth
    refine ⟨?_, (hGoesOn id).mp hAll⟩
    rcases h.stored_run id with hSame | ⟨run, _, _, hRetired, _⟩
    · rw [← hSame, hBefore]
      exact congrArg (fun on => some (inPlan, on)) hOn
    · rw [hRetired] at hBefore
      cases hBefore
      cases hOn
  · rw [hRun]
    rcases h.stored_run id with hSame | ⟨run, hFound, _, _, hHow⟩
    · rw [hSame, hActive, Option.map_some, (hGoesOn id).mpr hStays]
      exact .inl rfl
    · rcases hHow with hEnded | ⟨hPlan, hNamed⟩
      · exact absurd ((hRuns id).mpr hEnded) hStays
      · refine .inr fun plan hPlanFound => hEnds hPlan plan ?_
        change (db.runs.find? id).map Run.standing = _ at hActive
        rw [hFound, Option.map_some] at hActive
        have hIn : run.planId = planId := congrArg Prod.fst (Option.some.inj hActive)
        rw [hNamed, hIn, KeyedTable.key_of_find? hPlanFound]

theorem Accepted.reconciled {closed : List PlanId}
    (h : Accepted config env caller command claimed db (events ++ (closed.map (closure db)).map .plan) relations trail
      persisted appended)
    (hApplied : applyEvents (env.part 4) persisted appended = (.ok (), applied))
    (hDrains : (closing db).Drains (noted db events) (noted db events).candidates closed final)
    (hTakesIn : command.takesIn = false) (hFollowed : Followed events)
    (hEnds : ∀ plan : Plan, (endsPlan command = true ∧ command.endedPlan = some plan.id) ∨
      (∃ event ∈ events, event.archives = some plan.id) → planStatus (noted db events) plan ≠ .active) :
    Reconciled db (autoAppendLogs config (env.part 5) applied persisted) events closed := by
  have hClosures : ∀ event ∈ (closed.map (closure db)).map Event.plan,
      event.isFollowed = true ∧ event.archives = none := by
    simp only [mem_map]
    rintro _ ⟨_, ⟨id, _, rfl⟩, rfl⟩
    exact ⟨rfl, rfl⟩
  have hBatch : Followed (events ++ (closed.map (closure db)).map .plan) :=
    hFollowed.append (.of_all fun event hMem => (hClosures event hMem).1)
  have hReads := noted_reads db (events ++ (closed.map (closure db)).map .plan)
  have hFinal := drains_noted hDrains
  have hKeeps : ∀ plan, planStatus (noted db events) plan ≠ .active → planStatus final plan ≠ .active := by
    intro plan hNot
    refine hDrains.preserves (fun state => planStatus state plan ≠ .active) (fun state id _ hIs => ?_) hNot
    change planStatus (completed state id) plan ≠ .active
    rw [Reconciliation.planStatus_completed]
    split
    · exact nofun
    · exact hIs
  have hReflects : Reflects db final (fun id => (events ++ (closed.map (closure db)).map Event.plan).any
      fun event => event.archives = some id) (autoAppendLogs config (env.part 5) applied persisted) := by
    refine h.reflects hTakesIn hApplied hBatch.tracked (fun id row => ?_) hBatch.onMembers (fun id card => ?_)
      (fun id => ?_) fun hPlan plan hNamed => hKeeps plan (hEnds plan (.inl ⟨hPlan, hNamed⟩))
    · rw [hBatch.lifecycleAfter, hFinal]
      exact congrArg (Option.map · (row.map Prod.fst)) (funext fun status => (hReads.tasks id status).symm)
    · rw [hBatch.onPlan, hFinal]
      refine congrArg (Option.map · card) (funext fun card => ?_)
      rw [hReads.plans id card.status]
      rfl
    · rw [hFinal]
      exact (hReads.runs id).trans (or_iff_right not_mem_nil)
  refine Reconciliation.reconciled_followed hFollowed hDrains hReflects fun plan hArchived => hEnds plan (.inr ?_)
  obtain ⟨event, hMem, hIs⟩ := any_eq_true.mp hArchived
  rcases mem_append.mp hMem with hMem | hMem
  · exact ⟨event, hMem, of_decide_eq_true hIs⟩
  · cases (hClosures event hMem).2.symm.trans (of_decide_eq_true hIs)

theorem foldl_onPlan_none (events : List Event) (id : PlanId) :
    events.foldl (fun card event => event.onPlan id card) none = none := by
  induction events with
  | nil => rfl
  | cons event rest ih =>
    have hNone : event.onPlan id none = none := by
      unfold Event.onPlan
      split
      · exact ite_self none
      · exact ite_self none
      · exact ite_self none
      · rfl
    rw [foldl_cons, hNone]
    exact ih

variable {id : PlanId}

theorem mem_brings {event : Event} (hMoves : event.movesTo = none) (hCloses : event.closedPlan = none)
    (h : id ∈ brings db event) :
    ∃ runId run, event.endedRun = some runId ∧ db.runs.find? runId = some run ∧ run.planId = id := by
  have hNone : event.endedRun = none → event.bringsNone = true := by
    intro hEnds
    unfold Event.bringsNone
    rw [hMoves, hEnds, hCloses]
    rfl
  cases hEnds : event.endedRun with
  | none =>
    rw [Reconciliation.brings_of_bringsNone (hNone hEnds)] at h
    exact absurd h not_mem_nil
  | some runId =>
    have hIs : brings db event = ((db.runs.find? runId).map Run.planId).toList :=
      Reconciliation.brings_of_endedRun hEnds
    rw [hIs, Option.mem_toList] at h
    obtain ⟨run, hFound, hPlan⟩ := Option.map_eq_some_iff.mp h
    exact ⟨runId, run, rfl, hFound, hPlan⟩

theorem Accepted.reconciled_deleted {runs : List Event} {instant : Timestamp}
    (h : Accepted config env caller command claimed db (events ++ (planReconciliations db events).map .plan) relations
      trail persisted appended)
    (hApplied : applyEvents (env.part 4) persisted appended = (.ok (), applied))
    (hTakesIn : command.takesIn = false) (hEvents : events = .plan (.planDeleted id instant) :: runs)
    (hRuns : ∀ event ∈ runs, event.movesTo = none ∧ event.closedPlan = none ∧ event.isTracked = true ∧
      ∀ runId, event.endedRun = some runId → ∃ run, db.runs.find? runId = some run ∧ run.planId = id)
    (hEmpty : PlanRepo.listTasksOrdered db id = []) :
    planReconciliations db events = [] ∧
      Reconciled db (autoAppendLogs config (env.part 5) applied persisted) events [] := by
  obtain ⟨closed, final, hClosures, hDrains⟩ := planReconciliations_drains db events
  have hCandidates : ∀ other ∈ (noted db events).candidates, other = id := by
    rw [Reconciliation.candidates_noted, hEvents]
    intro other hOther
    obtain ⟨event, hMem, hBrought⟩ := mem_flatMap.mp hOther
    rcases mem_cons.mp hMem with rfl | hMem
    · exact absurd hBrought not_mem_nil
    · obtain ⟨hMoves, hCloses, _, hEnds⟩ := hRuns event hMem
      obtain ⟨runId, run, hEnded, hFound, hPlan⟩ := mem_brings hMoves hCloses hBrought
      obtain ⟨same, hSame, hIn⟩ := hEnds runId hEnded
      obtain rfl : run = same := Option.some.inj (hFound.symm.trans hSame)
      exact hPlan.symm.trans hIn
  have hClosed : closed = [] := by
    refine hDrains.fired_nil fun other hOther => Bool.eq_false_iff.mpr fun hFires => ?_
    obtain ⟨plan, hFound, hCloses⟩ := fires_iff.mp hFires
    have hClear := clear_iff.mp (closes_iff.mp hCloses).2
    refine hClear.hasMembers ?_
    rw [KeyedTable.key_of_find? hFound, hCandidates other hOther]
    exact hEmpty
  subst hClosed
  rw [hClosures] at h
  have hGone : (autoAppendLogs config (env.part 5) applied persisted).plans.find? id = none := by
    have hTracked : ∀ event ∈ events ++ (([] : List PlanId).map (closure db)).map .plan, event.isTracked = true := by
      rw [hEvents]
      intro event hMem
      rw [map_nil, map_nil, append_nil] at hMem
      rcases mem_cons.mp hMem with rfl | hMem
      · rfl
      · exact (hRuns event hMem).2.2.1
    have hStanding : (autoAppendLogs config (env.part 5) applied persisted).standing = standingAfter _ _ :=
      (AutoAppend.autoAppendLogs_standing _ _).trans (h.standing hTakesIn hTracked hApplied)
    have hCard : ((autoAppendLogs config (env.part 5) applied persisted).plans.find? id).map Plan.card = none := by
      change Standing.plan (Database.standing _) id = none
      rw [hStanding, standingAfter_plan, map_nil, map_nil, append_nil, hEvents, foldl_cons]
      have hDeleted : ∀ card, Event.onPlan (.plan (.planDeleted id instant)) id card = none := fun _ => if_pos rfl
      rw [hDeleted, foldl_onPlan_none]
    exact Option.map_eq_none_iff.mp hCard
  refine ⟨hClosures, ⟨final, hDrains⟩, fun _ hMem => absurd hMem not_mem_nil, nodup_nil,
    fun plan hReached hReady => ?_⟩
  have hEach : ∀ event ∈ events ++ (([] : List PlanId).map (closure db)).map .plan,
      event.movesTo = none ∧ event.closedPlan = none ∧ ∀ runId, event.endedRun = some runId →
        ∃ run, db.runs.find? runId = some run ∧ run.planId = id := by
    rw [hEvents]
    intro event hMem
    rw [map_nil, map_nil, append_nil] at hMem
    rcases mem_cons.mp hMem with rfl | hMem
    · exact ⟨rfl, rfl, fun _ hEnds => by cases hEnds⟩
    · obtain ⟨hMoves, hCloses, _, hEnds⟩ := hRuns event hMem
      exact ⟨hMoves, hCloses, hEnds⟩
  cases hReached with
  | task event taskId earlier status member hMem hMoves => cases (hEach event hMem).1.symm.trans hMoves
  | above hAbove => exact not_above (fun event hMem => (hEach event hMem).2.1) hAbove
  | run event runId run hMem hEnds hRun hPlan =>
    obtain ⟨same, hSame, hIn⟩ := (hEach event hMem).2.2 runId hEnds
    obtain rfl : run = same := Option.some.inj (hRun.symm.trans hSame)
    have hStored := hReady.stored
    rw [← hPlan, hIn, hGone] at hStored
    cases hStored

end Handler

structure LastOpenTask (db : Database) (id : TaskId) (plan : Plan) : Prop where
  stored : db.plans.find? plan.id = some plan
  active : plan.status = .active
  unarchived : plan.archivedAt = none
  opened : ∃ status, db.statusOf id = some status ∧ status.isTerminal = false
  member : ∃ member ∈ PlanRepo.listTasksOrdered db plan.id, member.taskId = id
  others : ∀ member ∈ PlanRepo.listTasksOrdered db plan.id, member.taskId ≠ id → ∃ status,
    db.statusOf member.taskId = some status ∧ status.isTerminal = true
  children : ∀ child ∈ PlanRepo.listChildren db plan.id, child.status = .completed ∨ child.status = .abandoned
  runs : RunRepo.listActiveForPlan db plan.id = []

namespace Reconciliation

variable {db after : Database} {id : TaskId} {status : Status} {archived : PlanId → Bool}

theorem Reflects.statusOf_patched (h : Reflects db ⟨[], [(id, status)], [], []⟩ archived after) (other : TaskId) :
    after.statusOf other = (db.statusOf other).map fun earlier => if id = other then status else earlier := by
  rw [h.task]
  exact congrArg (Option.map · (db.statusOf other)) (funext fun _ => lookup_cons_getD)

theorem mem_listTasksOrdered {planId : PlanId} {member : PlanTask} :
    member ∈ PlanRepo.listTasksOrdered db planId ↔ member ∈ db.planTasks.rows ∧ member.planId = planId := by
  rw [PlanRepo.listTasksOrdered, mem_orderBy, mem_filter, decide_eq_true_eq]

variable {plan : Plan}

theorem LastOpenTask.left_open (h : LastOpenTask db id plan)
    (hReflects : Reflects db ⟨[], [(id, status)], [], []⟩ (fun _ => false) after) (hTerminal : status.isTerminal = true) :
    ∃ later, later.id = plan.id ∧ ReadyToClose after later := by
  obtain ⟨later, hLater, hStatus, _, hArchived⟩ := hReflects.plan_after h.stored
  have hId : later.id = plan.id := KeyedTable.key_of_find? hLater
  have hClear : Clear db ⟨[], [(id, status)], [], []⟩ plan := by
    refine ⟨h.unarchived, ?_, fun member hMember => ?_, h.children, ?_⟩
    · obtain ⟨member, hMember, _⟩ := h.member
      exact ne_nil_of_mem hMember
    · rw [hReflects.memberStatus, hReflects.statusOf_patched]
      by_cases hIs : id = member.taskId
      · obtain ⟨earlier, hEarlier, _⟩ := h.opened
        refine ⟨status, ?_, hTerminal⟩
        rw [← hIs, hEarlier, Option.map_some, if_pos rfl]
      · obtain ⟨earlier, hEarlier, hDone⟩ := h.others member hMember (Ne.symm hIs)
        refine ⟨earlier, ?_, hDone⟩
        rw [hEarlier, Option.map_some, if_neg hIs]
    · rw [h.runs]
      exact fun run hRun => absurd hRun not_mem_nil
  refine ⟨later, hId, hId.symm ▸ hLater, hStatus.trans h.active, ?_, hId.symm ▸ hReflects.finished hClear⟩
  rw [h.unarchived] at hArchived
  exact Option.isSome_eq_false_iff.mp hArchived |> Option.isNone_iff_eq_none.mp

theorem LastOpenTask.of_ready (hReady : ReadyToClose after plan)
    (hReflects : Reflects db ⟨[], [(id, status)], [], []⟩ archived after)
    (hOpened : ∃ status, db.statusOf id = some status ∧ status.isTerminal = false)
    (hMember : ∃ member ∈ after.planTasks.rows, member.planId = plan.id ∧ member.taskId = id) :
    ∃ before, LastOpenTask db id before := by
  obtain ⟨before, hBefore, hCloses⟩ := hReflects.closes hReady
  obtain ⟨hActive, hClear⟩ := closes_iff.mp hCloses
  have hClear := clear_iff.mp hClear
  have hId : before.id = plan.id := KeyedTable.key_of_find? hBefore
  refine ⟨before, hId.symm ▸ hBefore, hActive, hClear.unarchived, hOpened, ?_, fun member hIn hOther => ?_,
    hClear.children, ?_⟩
  · obtain ⟨member, hRow, hPlan, hTask⟩ := hMember
    exact ⟨member, mem_listTasksOrdered.mpr ⟨hReflects.members ▸ hRow, hPlan.trans hId.symm⟩, hTask⟩
  · obtain ⟨later, hLater, hDone⟩ := hClear.members member hIn
    rw [hReflects.memberStatus, hReflects.statusOf_patched] at hLater
    obtain ⟨earlier, hEarlier, hIs⟩ := Option.map_eq_some_iff.mp hLater
    rw [if_neg (Ne.symm hOther)] at hIs
    exact ⟨earlier, hEarlier, hIs.symm ▸ hDone⟩
  · exact eq_nil_iff_forall_not_mem.mpr fun run hRun => absurd (hClear.runs run hRun) not_mem_nil

end Reconciliation

namespace Handler

variable {config : Config} {env : Env} {caller : Caller} {command : Command} {claimed : Actor} {db : Database}
  {relations : Relations} {trail : GateStage.Trail} {persisted : List EventEnvelope} {appended applied : Database}

theorem planReconciliations_patched (id : TaskId) (patch : TaskPatch) :
    planReconciliations db [.task (.taskUpdated id patch)] = [] ∧
      ∃ final, (closing db).Drains (noted db [.task (.taskUpdated id patch)])
        (noted db [.task (.taskUpdated id patch)]).candidates [] final := by
  obtain ⟨closed, final, hClosures, hDrains⟩ := planReconciliations_drains db [.task (.taskUpdated id patch)]
  have hClosed : closed = [] := hDrains.fired_nil fun _ hMem => absurd hMem not_mem_nil
  subst hClosed
  exact ⟨hClosures, final, hDrains⟩

variable {patch given : TaskPatch} {answer : DispatchOutcome}

variable {after : Database} {id : TaskId}

theorem Accepted.reflects_patched {status : Status}
    (h : Accepted config env caller (.task (.updateTask id given)) claimed db [.task (.taskUpdated id patch)] relations
      trail persisted appended)
    (hApplied : applyEvents (env.part 4) persisted appended = (.ok (), applied))
    (hStatus : patch.status = some status) : Reflects db ⟨[], [(id, status)], [], []⟩ (fun _ => false)
      (autoAppendLogs config (env.part 5) applied persisted) := by
  refine h.reflects rfl hApplied (forall_mem_singleton.mpr rfl) (fun other row => ?_) (fun _ => rfl)
    (fun other card => ?_) (fun other => ?_) fun hEnds => ?_
  · change (if id = other then row.map fun row => (patch.status.getD row.1, row.2) else row).map Prod.fst = _
    simp only [Reconciliation.lookup_cons_getD, lookup_nil, Option.getD_none, hStatus, Option.getD_some]
    split
    · rw [Option.map_map, Option.map_map]
      rfl
    · exact Option.map_id'.symm
  · simp only [Bool.or_false]
    exact Option.map_id'.symm
  · simp [Event.endedRun]
  · cases hEnds

theorem Accepted.reconciled_patched
    (h : Accepted config env caller (.task (.updateTask id given)) claimed db [.task (.taskUpdated id patch)] relations
      trail persisted appended)
    (hApplied : applyEvents (env.part 4) persisted appended = (.ok (), applied)) :
    Reconciled db (autoAppendLogs config (env.part 5) applied persisted) [.task (.taskUpdated id patch)] [] ↔
      ∀ status plan, patch.status = some status → status.isTerminal = true → ¬LastOpenTask db id plan := by
  constructor
  · intro hReconciled status plan hStatus hTerminal hLast
    obtain ⟨later, hId, hReady⟩ := Reconciliation.LastOpenTask.left_open hLast (h.reflects_patched hApplied hStatus) hTerminal
    obtain ⟨member, hMember, hTask⟩ := hLast.member
    obtain ⟨hRow, hPlan⟩ := Reconciliation.mem_listTasksOrdered.mp hMember
    obtain ⟨earlier, hEarlier, hOpen⟩ := hLast.opened
    refine hReconciled.settled later (.task _ id earlier status member mem_cons_self ?_ hTerminal hEarlier hOpen ?_
      (hPlan.trans hId.symm) hTask) hReady
    · rw [Event.movesTo, hStatus]
      rfl
    · rw [(h.reflects_patched hApplied hStatus).members]
      exact hRow
  · intro hNone
    obtain ⟨_, hDrains⟩ := @planReconciliations_patched db id patch
    refine ⟨hDrains, fun _ hMem => absurd hMem not_mem_nil, nodup_nil, fun plan hReached hReady => ?_⟩
    have hOnly : ∀ event ∈ [Event.task (.taskUpdated id patch)] ++ (([] : List PlanId).map (closure db)).map .plan,
        event = .task (.taskUpdated id patch) := by
      intro event hMem
      rw [map_nil, map_nil, append_nil] at hMem
      exact mem_singleton.mp hMem
    cases hReached with
    | run event runId run hMem hEnds =>
      rw [hOnly event hMem] at hEnds
      cases hEnds
    | above hAbove =>
      refine not_above (fun event hMem => ?_) hAbove
      rw [hOnly event hMem]
      rfl
    | task event taskId earlier status member hMem hMoves hTerminal hEarlier hOpen hMember hPlan hTask =>
      rw [hOnly event hMem] at hMoves
      obtain ⟨_, hStatus, hIs⟩ := Option.map_eq_some_iff.mp hMoves
      cases hIs
      obtain ⟨before, hLast⟩ := Reconciliation.LastOpenTask.of_ready hReady (h.reflects_patched hApplied hStatus)
        ⟨earlier, hEarlier, hOpen⟩ ⟨member, hMember, hPlan, hTask⟩
      exact hNone status before hStatus hTerminal hLast

/-- An answered command has the plans that it reaches reconciled: with the events that
it is about to record, which are none when it repeats a completion, the loop over plans
ends, and the answer has what the loop closes. -/
def PlansReconciled (config : Config) (env : Env) (caller : Caller) (command : Command) (claimed : Actor)
    (db : Database) (answer : DispatchOutcome) (after : Database) : Prop :=
  ∃ events closed, ((isCompletedRunRetry db caller command = true ∧ events = []) ∨
      ∃ relations, unreconciled config db (env.part 0) caller (attributedActor caller command claimed) command
        db.relations = (.ok events, relations)) ∧
    planReconciliations db events = closed.map (closure db) ∧
    (∀ id ∈ closed, .plan (closure db id) ∈ answer.events.map EventEnvelope.payload) ∧
    Reconciled db after events closed

def PatchesLastOpen (db : Database) (command : Command) : Prop :=
  ∃ id patch status plan, command = .task (.updateTask id patch) ∧ patch.status = some status ∧
    status.isTerminal = true ∧ LastOpenTask db id plan

theorem reconciled_of_answer (h : handleWithRunOwner config env caller command claimed db = (.ok answer, after))
    (hOther : ¬PatchesLastOpen db command) : PlansReconciled config env caller command claimed db answer after := by
  have hNone : ∀ {events : List Event}, AllBringNone events → ((isCompletedRunRetry db caller command = true ∧ events = []) ∨
      ∃ relations, unreconciled config db (env.part 0) caller (attributedActor caller command claimed) command
        db.relations = (.ok events, relations)) → PlansReconciled config env caller command claimed db answer after := by
    intro events hNone hEvents
    obtain ⟨hClosures, hReconciled⟩ := @Reconciliation.reconciled_none db after events hNone
    exact ⟨events, [], hEvents, hClosures, fun _ hMem => absurd hMem not_mem_nil, hReconciled⟩
  rcases answered h with hRetry | ⟨batch, relations, ⟨warnings, hDraft⟩, hEnd⟩
  · exact hNone .nil (.inl ⟨hRetry, rfl⟩)
  obtain ⟨events, hEvents, rfl⟩ := draft_unreconciled hDraft
  rcases hEnd with ⟨hEmpty, _⟩ | ⟨trail, persisted, appended, applied, hAccepted, hApplied, hAnswer, rfl⟩
  · obtain ⟨rfl, _⟩ := append_eq_nil_iff.mp hEmpty
    exact hNone .nil (.inr ⟨relations, hEvents⟩)
  cases unreconciled_shape _ _ _ hEvents with
  | idle hIdle => exact hNone hIdle (.inr ⟨relations, hEvents⟩)
  | followed hTakesIn hFollowed hEnds =>
    obtain ⟨closed, final, hClosures, hDrains⟩ := planReconciliations_drains db events
    rw [hClosures] at hAccepted
    refine ⟨events, closed, .inr ⟨relations, hEvents⟩, hClosures, fun id hMem => ?_,
      hAccepted.reconciled hApplied hDrains hTakesIn hFollowed hEnds⟩
    obtain ⟨first, last, hPayloads, _, _⟩ := hAccepted.surrounded hTakesIn
    rw [hAnswer, hPayloads]
    have hClosing : Event.plan (closure db id) ∈ (closed.map (closure db)).map Event.plan :=
      mem_map_of_mem (mem_map_of_mem hMem)
    exact mem_append_left _ (mem_append_right _ (mem_append_right _ hClosing))
  | patched id given patch hCommand hIs hStatus =>
    subst hCommand
    subst hIs
    obtain ⟨hClosures, _⟩ := @planReconciliations_patched db id patch
    rw [hClosures] at hAccepted
    refine ⟨_, [], .inr ⟨relations, hEvents⟩, hClosures, fun _ hMem => absurd hMem not_mem_nil, ?_⟩
    refine (hAccepted.reconciled_patched hApplied).mpr fun status plan hPatch hTerminal hLast => hOther ?_
    exact ⟨id, given, status, plan, rfl, hStatus.symm.trans hPatch, hTerminal, hLast⟩
  | deleted id instant runs hCommand hIs hRuns hEmpty =>
    have hTakesIn : command.takesIn = false := by
      rw [hCommand]
      rfl
    obtain ⟨hClosures, hReconciled⟩ := hAccepted.reconciled_deleted hApplied hTakesIn hIs hRuns hEmpty
    exact ⟨events, [], .inr ⟨relations, hEvents⟩, hClosures, fun _ hMem => absurd hMem not_mem_nil, hReconciled⟩

theorem not_reconciled_of_answer
    (h : handleWithRunOwner config env caller command claimed db = (.ok answer, after))
    (hPatches : PatchesLastOpen db command) : ¬PlansReconciled config env caller command claimed db answer after := by
  obtain ⟨id, given, status, plan, rfl, hStatus, hTerminal, hLast⟩ := hPatches
  rintro ⟨events, closed, hEvents, hClosures, _, hReconciled⟩
  rcases answered h with hRetry | ⟨batch, relations, ⟨warnings, hDraft⟩, hEnd⟩
  · cases hRetry
  obtain ⟨drafted, hDrafted, rfl⟩ := draft_unreconciled hDraft
  obtain ⟨patch, rfl, hSame⟩ := unreconciled_patched _ _ _ hDrafted
  have hIs : events = [.task (.taskUpdated id patch)] := by
    rcases hEvents with ⟨hRetry, _⟩ | ⟨relations, hEvents⟩
    · cases hRetry
    · cases hEvents.symm.trans hDrafted
      rfl
  subst hIs
  obtain ⟨hNone, _⟩ := @planReconciliations_patched db id patch
  have hClosed : closed = [] := map_eq_nil_iff.mp (hClosures.symm.trans hNone)
  subst hClosed
  rw [hNone] at hEnd
  rcases hEnd with ⟨hEmpty, _⟩ | ⟨trail, persisted, appended, applied, hAccepted, hApplied, _, rfl⟩
  · cases hEmpty
  · exact (hAccepted.reconciled_patched hApplied).mp hReconciled status plan (hSame.trans hStatus) hTerminal hLast

/-- The plans that an answered command reaches are reconciled, unless it patches the
last open task of a plan into a terminal status. -/
theorem plans_reconciled_iff {answer : DispatchOutcome} {after : Database}
    (h : handleWithRunOwner config env caller command claimed db = (.ok answer, after)) :
    PlansReconciled config env caller command claimed db answer after ↔ ¬PatchesLastOpen db command :=
  ⟨fun hReconciled hPatches => not_reconciled_of_answer h hPatches hReconciled, reconciled_of_answer h⟩

private def planWithTask : List Command := [
  .task (.createTask { NewTask.new "task" with id := some ⟨7⟩ }),
  .plan (.createPlan (NewPlan.new "plan" ⟨0⟩ .anyUser) none),
  .plan (.setPlanStatus ((builderEnv (Server.nthEnv 1)).fresh 0) .active false none),
  .plan (.addPlanTask ((builderEnv (Server.nthEnv 1)).fresh 0) ⟨7⟩ none none)]

private def plannedTask : Database := Server.run Server.engineConfig (Server.commands planWithTask)

private def planOfTask : PlanId := (builderEnv (Server.nthEnv 1)).fresh 0

private def completedTask : Except CoreError DispatchOutcome × Database :=
  handleWithRunOwner Server.engineConfig (Server.nthEnv 4) .internal (.task (.completeTask ⟨7⟩ none)) .anyUser plannedTask

theorem plans_reconciled_iff_completed : (completedTask.2.plans.find? planOfTask).map Plan.status = some .completed ∧
    ∃ answer, completedTask.1 = .ok answer ∧
      (PlansReconciled Server.engineConfig (Server.nthEnv 4) .internal (.task (.completeTask ⟨7⟩ none)) .anyUser
        plannedTask answer completedTask.2 ↔ ¬PatchesLastOpen plannedTask (.task (.completeTask ⟨7⟩ none))) := by
  have hAnswered : completedTask.1.isOk = true := by decide +kernel
  refine ⟨by decide +kernel, ?_⟩
  cases hOutcome : completedTask.1 with
  | error e =>
    rw [hOutcome] at hAnswered
    cases hAnswered
  | ok answer =>
    have hRun : completedTask = (.ok answer, completedTask.2) := by rw [← hOutcome]
    exact ⟨answer, rfl, plans_reconciled_iff hRun⟩

private def donePatch : TaskPatch := { TaskPatch.none with status := some .done }

private def patchedTask : Except CoreError DispatchOutcome × Database :=
  handleWithRunOwner Server.engineConfig (Server.nthEnv 4) .internal (.task (.updateTask ⟨7⟩ donePatch)) .anyUser plannedTask

/-- A patch of the last open task leaves its plan ready but open. -/
theorem patched_plan_left_open : (patchedTask.2.plans.find? planOfTask).map Plan.status = some .active ∧
    ∃ answer, patchedTask.1 = .ok answer ∧
      ¬PlansReconciled Server.engineConfig (Server.nthEnv 4) .internal (.task (.updateTask ⟨7⟩ donePatch)) .anyUser
        plannedTask answer patchedTask.2 := by
  have hAnswered : patchedTask.1.isOk = true := by decide +kernel
  have hPlan : (plannedTask.plans.find? planOfTask).map (fun plan => (plan.status, plan.archivedAt)) =
      some (.active, none) := by decide +kernel
  have hMembers : (PlanRepo.listTasksOrdered plannedTask planOfTask).map PlanTask.taskId = [⟨7⟩] := by decide +kernel
  have hChildren : PlanRepo.listChildren plannedTask planOfTask = [] := by decide +kernel
  have hRuns : RunRepo.listActiveForPlan plannedTask planOfTask = [] := by decide +kernel
  have hStatus : plannedTask.statusOf ⟨7⟩ = some .inbox := by decide +kernel
  obtain ⟨plan, hFound, hIs⟩ := Option.map_eq_some_iff.mp hPlan
  obtain ⟨hActive, hUnarchived⟩ := Prod.mk.inj hIs
  have hId : plan.id = planOfTask := KeyedTable.key_of_find? hFound
  have hLast : LastOpenTask plannedTask ⟨7⟩ plan := by
    rw [← hId] at hFound hMembers hChildren hRuns
    refine ⟨hFound, hActive, hUnarchived, ⟨.inbox, hStatus, rfl⟩, ?_, fun member hMember hOther => ?_, ?_, hRuns⟩
    · exact mem_map.mp (hMembers ▸ mem_singleton_self _)
    · refine absurd (mem_singleton.mp ?_) hOther
      exact hMembers ▸ mem_map_of_mem hMember
    · rw [hChildren]
      exact fun child hChild => absurd hChild not_mem_nil
  refine ⟨by decide +kernel, ?_⟩
  cases hOutcome : patchedTask.1 with
  | error e =>
    rw [hOutcome] at hAnswered
    cases hAnswered
  | ok answer =>
    have hRun : patchedTask = (.ok answer, patchedTask.2) := by rw [← hOutcome]
    refine ⟨answer, rfl, not_reconciled_of_answer hRun ?_⟩
    exact ⟨⟨7⟩, donePatch, .done, plan, rfl, rfl, rfl, hLast⟩

end Handler
end Daruma
