import Daruma.Core.PlanTriggers

/-! The plans that a command closes with its work: each is ready, each is closed once,
and none that the command reaches is left open without work, unless the work ended by
a patch. -/
namespace Daruma

open Outcome List

inductive Above (db : Database) (batch : List Event) : PlanId → Prop where
  | child {id : PlanId} (event : Event) (childId : PlanId) (child : Plan) (hMem : event ∈ batch)
      (hCloses : event.closedPlan = some childId) (hChild : db.plans.find? childId = some child)
      (hParent : child.parentPlanId = some id) : Above db batch id
  | up {id : PlanId} (between : Plan) (hBelow : Above db batch between.id)
      (hFound : db.plans.find? between.id = some between)
      (hOpen : ¬(between.status = .completed ∨ between.status = .abandoned))
      (hParent : between.parentPlanId = some id) : Above db batch id

inductive Reached (db after : Database) (batch : List Event) (id : PlanId) : Prop where
  | task (event : Event) (taskId : TaskId) (earlier status : Status) (member : PlanTask) (hMem : event ∈ batch)
      (hMoves : event.movesTo = some (taskId, status)) (hTerminal : status.isTerminal = true)
      (hEarlier : db.statusOf taskId = some earlier) (hOpen : earlier.isTerminal = false)
      (hMember : member ∈ after.planTasks.rows) (hPlan : member.planId = id) (hTask : member.taskId = taskId)
  | run (event : Event) (runId : RunId) (run : Run) (hMem : event ∈ batch) (hEnds : event.endedRun = some runId)
      (hRun : db.runs.find? runId = some run) (hPlan : run.planId = id)
  | above (h : Above db batch id)

theorem not_above {db : Database} {batch : List Event} {id : PlanId} (h : ∀ event ∈ batch, event.closedPlan = none) :
    ¬Above db batch id := by
  intro hAbove
  induction hAbove with
  | child event childId child hMem hCloses => cases (h event hMem).symm.trans hCloses
  | up between hBelow hFound hOpen hParent ih => exact ih

namespace Reconciliation

/-- The reconciliation of a batch, between the database before it and the one after. -/
structure Reconciled (db after : Database) (events : List Event) (closed : List PlanId) : Prop where
  /-- The loop over the candidates ends, with these closures. -/
  ends : ∃ final, (closing db).Drains (noted db events) (noted db events).candidates closed final
  ready : ∀ id ∈ closed, ∃ before later, db.plans.find? id = some before ∧
    planStatus (noted db events) before = .active ∧ after.plans.find? id = some later ∧ later.status = .completed ∧
    later.archivedAt = none ∧ Finished after id
  once : closed.Nodup
  settled : ∀ plan, Reached db after (events ++ (closed.map (closure db)).map .plan) plan.id → ¬ReadyToClose after plan

variable {db after : Database} {events : List Event} {closed : List PlanId} {final : Pending} {archived : PlanId → Bool}
  {id : PlanId}

variable {plan : Plan} {taskId : TaskId}

theorem mem_listPlansForTask : plan ∈ PlanRepo.listPlansForTask db taskId ↔
    ∃ member ∈ db.planTasks.rows, member.taskId = taskId ∧ db.plans.find? member.planId = some plan := by
  simp only [PlanRepo.listPlansForTask, mem_map, mem_insertionSort, mem_filterMap, mem_orderBy,
    mem_filter, decide_eq_true_eq, Option.map_eq_some_iff]
  constructor
  · rintro ⟨_, ⟨member, ⟨hMember, hTask⟩, found, hFound, rfl⟩, rfl⟩
    exact ⟨member, hMember, hTask, hFound⟩
  · rintro ⟨member, hMember, hTask, hFound⟩
    exact ⟨_, ⟨member, ⟨hMember, hTask⟩, plan, hFound, rfl⟩, rfl⟩

variable {event : Event}

theorem brings_of_bringsNone (h : event.bringsNone = true) : brings db event = [] := by
  cases event with
  | task event =>
    cases event with
    | taskStatusChanged => cases h
    | _ => rfl
  | plan event =>
    cases event with
    | planStatusChanged planId fromStatus toStatus =>
      cases toStatus with
      | completed | abandoned => cases h
      | draft | active => rfl
    | planArchived => cases h
    | _ => rfl
  | run event =>
    cases event with
    | runCompleted | runFailed | runAborted => cases h
    | _ => rfl
  | _ => rfl

theorem brings_of_endedRun {runId : RunId} (h : event.endedRun = some runId) :
    brings db event = ((db.runs.find? runId).map Run.planId).toList := by
  unfold Event.endedRun at h
  split at h
  · cases h
    rfl
  · cases h
    rfl
  · cases h
    rfl
  · cases h

theorem candidates_noted : (noted db events).candidates = events.flatMap (brings db) :=
  (noted_reads db events).candidates

theorem reconciled_none (h : AllBringNone events) : planReconciliations db events = [] ∧ Reconciled db after events [] := by
  obtain ⟨closed, final, hClosures, hDrains⟩ := planReconciliations_drains db events
  have hNone : (noted db events).candidates = [] := by
    rw [candidates_noted]
    exact flatMap_eq_nil_iff.mpr fun event hMem => brings_of_bringsNone (h event hMem)
  have hClosed : closed = [] := hDrains.fired_nil fun id hMem => absurd (hNone ▸ hMem) not_mem_nil
  subst hClosed
  refine ⟨hClosures, ⟨final, hDrains⟩, fun _ hMem => absurd hMem not_mem_nil, nodup_nil, fun plan hReached => ?_⟩
  have hIdle : ∀ event ∈ events ++ (([] : List PlanId).map (closure db)).map .plan,
      event.movesTo = none ∧ event.endedRun = none ∧ event.closedPlan = none := by
    intro event hMem
    rw [map_nil, map_nil, append_nil] at hMem
    have hIs := h event hMem
    simp only [Event.bringsNone, Bool.and_eq_true, Option.isNone_iff_eq_none] at hIs
    exact ⟨hIs.1.1, hIs.1.2, hIs.2⟩
  cases hReached with
  | task event taskId earlier status member hMem hMoves => cases (hIdle event hMem).1.symm.trans hMoves
  | run event runId run hMem hEnds => cases (hIdle event hMem).2.1.symm.trans hEnds
  | above hAbove => exact absurd hAbove (not_above fun event hMem => (hIdle event hMem).2.2)

theorem drains_noted (h : (closing db).Drains (noted db events) (noted db events).candidates closed final) :
    final = { noted db (events ++ (closed.map (closure db)).map .plan) with candidates := final.candidates } := by
  obtain ⟨hTasks, hRuns, hPlans⟩ := drains_overlay h
  have hNoted : ∀ (ids : List PlanId) (pending : Pending),
      ((ids.map (closure db)).map Event.plan).foldl (note db) pending = { pending with
        planStatuses := (ids.reverse.map fun id => (id, .completed)) ++ pending.planStatuses
        candidates := (((ids.map (closure db)).map Event.plan).foldl (note db) pending).candidates } := by
    intro ids
    induction ids with
    | nil => exact fun _ => rfl
    | cons id rest ih =>
      intro pending
      rw [map_cons, map_cons, foldl_cons, ih, reverse_cons, map_append, append_assoc]
      rfl
  have hAll : noted db (events ++ (closed.map (closure db)).map .plan) =
      ((closed.map (closure db)).map Event.plan).foldl (note db) (noted db events) := foldl_append
  rw [hAll, hNoted]
  cases final
  cases hTasks
  cases hRuns
  cases hPlans
  rfl

theorem Followed.transition (h : Followed events) (hMem : event ∈ events)
    {status : Status} (hMoves : event.movesTo = some (taskId, status)) :
    ∃ fromStatus, .task (.taskStatusChanged taskId fromStatus status) ∈ events := by
  have hIs : event.isFollowed = true → ∃ fromStatus, event = .task (.taskStatusChanged taskId fromStatus status) := by
    intro hFollowed
    cases event with
    | task event =>
      cases event with
      | taskStatusChanged =>
        cases hMoves
        exact ⟨_, rfl⟩
      | taskCompleted => cases hFollowed
      | taskUpdated id patch =>
        have hNone : patch.status = none := Option.isNone_iff_eq_none.mp hFollowed
        rw [Event.movesTo, hNone] at hMoves
        cases hMoves
      | _ => cases hMoves
    | _ => cases hMoves
  induction h with
  | nil => exact absurd hMem not_mem_nil
  | cons hFollowed hRest ih =>
    rcases mem_cons.mp hMem with rfl | hLater
    · obtain ⟨fromStatus, hEvent⟩ := hIs hFollowed
      exact ⟨fromStatus, hEvent ▸ mem_cons_self⟩
    · obtain ⟨fromStatus, hFound⟩ := ih hLater
      exact ⟨fromStatus, mem_cons_of_mem _ hFound⟩
  | completed hRest ih =>
    rcases mem_cons.mp hMem with rfl | hLater
    · cases hMoves
      exact ⟨_, mem_cons_self⟩
    · rcases mem_cons.mp hLater with rfl | hLater
      · cases hMoves
        exact ⟨_, mem_cons_self⟩
      · obtain ⟨fromStatus, hFound⟩ := ih hLater
        exact ⟨fromStatus, mem_cons_of_mem _ (mem_cons_of_mem _ hFound)⟩

theorem closedPlan_candidate {childId : PlanId} {child : Plan}
    (hMem : event ∈ events ++ (closed.map (closure db)).map .plan) (hCloses : event.closedPlan = some childId)
    (hChild : db.plans.find? childId = some child) (hParent : child.parentPlanId = some id) :
    id ∈ (noted db events).candidates ∨ ∃ child ∈ closed, id ∈ parentOf db child := by
  have hAbove : id ∈ parentOf db childId := by
    rw [parentOf, hChild, Option.bind_some, hParent]
    exact mem_singleton_self _
  rcases mem_append.mp hMem with hMem | hMem
  · rw [candidates_noted]
    refine .inl (mem_flatMap.mpr ⟨event, hMem, ?_⟩)
    unfold Event.closedPlan at hCloses
    split at hCloses
    · cases hCloses
      exact hAbove
    · cases hCloses
      exact hAbove
    · cases hCloses
      exact hAbove
    · cases hCloses
  · obtain ⟨_, hClosing, rfl⟩ := mem_map.mp hMem
    obtain ⟨_, hId, rfl⟩ := mem_map.mp hClosing
    cases hCloses
    exact .inr ⟨_, hId, hAbove⟩

theorem exists_closedPlan {batch : List Event} {status : PlanStatus}
    (hOpen : ¬(status = .completed ∨ status = .abandoned)) {last : PlanStatus}
    (hLast : batch.foldl (fun status event => event.planStatus id status) status = last)
    (hClosed : last = .completed ∨ last = .abandoned) : ∃ event ∈ batch, event.closedPlan = some id := by
  induction batch generalizing status with
  | nil =>
    subst hLast
    exact absurd hClosed hOpen
  | cons event rest ih =>
    by_cases hNow : event.planStatus id status = .completed ∨ event.planStatus id status = .abandoned
    · refine ⟨event, mem_cons_self, ?_⟩
      unfold Event.planStatus at hNow
      split at hNow
      · split at hNow
        · rename_i hIs
          rcases hNow with rfl | rfl
          · exact congrArg some hIs
          · exact congrArg some hIs
        · exact absurd hNow hOpen
      · split at hNow
        · rename_i hIs
          exact congrArg some hIs
        · exact absurd hNow hOpen
      · exact absurd hNow hOpen
    · obtain ⟨found, hFound, hCloses⟩ := ih hNow hLast
      exact ⟨found, mem_cons_of_mem _ hFound, hCloses⟩

theorem above_candidate (hReflects : Reflects db final archived after) (hFinal : ∀ plan, planStatus final plan =
      planStatus (noted db (events ++ (closed.map (closure db)).map .plan)) plan)
    (h : Above db (events ++ (closed.map (closure db)).map .plan) id) :
    (id ∈ (noted db events).candidates ∨ ∃ child ∈ closed, id ∈ parentOf db child) ∨
      ∃ child ∈ PlanRepo.listChildren after id, ¬(child.status = .completed ∨ child.status = .abandoned) := by
  cases h with
  | child event childId child hMem hCloses hChild hParent =>
    exact .inl (closedPlan_candidate hMem hCloses hChild hParent)
  | up between hBelow hFound hOpen hParent =>
    obtain ⟨later, hLater, hStatus, hSameParent, _⟩ := hReflects.plan_after hFound
    by_cases hClosed : later.status = .completed ∨ later.status = .abandoned
    · have hFolded := (planStatus_noted db (events ++ (closed.map (closure db)).map .plan) between).symm.trans
        ((hFinal between).symm.trans hStatus.symm)
      obtain ⟨event, hMem, hCloses⟩ := exists_closedPlan hOpen hFolded hClosed
      exact .inl (closedPlan_candidate hMem hCloses hFound hParent)
    · have hId : later.id = between.id := KeyedTable.key_of_find? hLater
      refine .inr ⟨later, PlanRepo.mem_listChildren.mpr ⟨hId.symm ▸ hLater, hSameParent.trans hParent⟩, hClosed⟩

theorem reached_candidate (h : Followed events) (hRows : after.planTasks.rows = db.planTasks.rows)
    (hStored : db.plans.find? plan.id = some plan)
    (hReached : Reached db after (events ++ (closed.map (closure db)).map .plan) plan.id) :
    plan.id ∈ (noted db events).candidates ∨ Above db (events ++ (closed.map (closure db)).map .plan) plan.id := by
  have hBrings : ∀ event ∈ events, plan.id ∈ brings db event → plan.id ∈ (noted db events).candidates := by
    intro event hMem hBrought
    rw [candidates_noted]
    exact mem_flatMap.mpr ⟨event, hMem, hBrought⟩
  have hClosure : ∀ event ∈ (closed.map (closure db)).map Event.plan, ∃ id, event = .plan (closure db id) := by
    intro event hMem
    obtain ⟨closing, hClosing, rfl⟩ := mem_map.mp hMem
    obtain ⟨id, _, rfl⟩ := mem_map.mp hClosing
    exact ⟨id, rfl⟩
  cases hReached with
  | task event taskId earlier status member hMem hMoves hTerminal hEarlier hOpen hMember hPlan hTask =>
    rcases mem_append.mp hMem with hMem | hMem
    · obtain ⟨fromStatus, hTransition⟩ := Followed.transition h hMem hMoves
      refine .inl (hBrings _ hTransition ?_)
      change plan.id ∈ [] ++ if status.isTerminal then (PlanRepo.listPlansForTask db taskId).map Plan.id else []
      rw [if_pos hTerminal, nil_append]
      exact mem_map_of_mem (mem_listPlansForTask.mpr ⟨member, hRows ▸ hMember, hTask, hPlan ▸ hStored⟩)
    · obtain ⟨_, rfl⟩ := hClosure event hMem
      cases hMoves
  | run event runId run hMem hEnds hRun hPlan =>
    rcases mem_append.mp hMem with hMem | hMem
    · refine .inl (hBrings event hMem ?_)
      rw [brings_of_endedRun hEnds, hRun, Option.map_some, hPlan]
      exact mem_singleton_self _
    · obtain ⟨_, rfl⟩ := hClosure event hMem
      cases hEnds
  | above hAbove => exact .inr hAbove

theorem reconciled_followed (h : Followed events)
    (hDrains : (closing db).Drains (noted db events) (noted db events).candidates closed final)
    (hReflects : Reflects db final archived after)
    (hArchived : ∀ plan : Plan, archived plan.id = true → planStatus (noted db events) plan ≠ .active) :
    Reconciled db after events closed := by
  refine ⟨⟨final, hDrains⟩, fun id hMem => ?_, drains_nodup hDrains, fun plan hReached hReady => ?_⟩
  · obtain ⟨plan, hFound, hActive, hCompleted, hClear⟩ := drains_clear hDrains hMem
    obtain ⟨later, hLater, hStatus, _, hSame⟩ := hReflects.plan_after hFound
    have hId : plan.id = id := KeyedTable.key_of_find? hFound
    refine ⟨plan, later, hFound, hActive, hLater, hStatus.trans hCompleted, ?_, hId ▸ hReflects.finished hClear⟩
    have hNot : archived id = false := Bool.eq_false_iff.mpr fun hIs => hArchived plan (hId.symm ▸ hIs) hActive
    rw [hClear.unarchived, hNot] at hSame
    exact Option.isSome_eq_false_iff.mp hSame |> Option.isNone_iff_eq_none.mp
  · obtain ⟨before, hBefore, hCloses⟩ := hReflects.closes hReady
    have hId : before.id = plan.id := KeyedTable.key_of_find? hBefore
    have hStored : db.plans.find? before.id = some before := hId.symm ▸ hBefore
    have hBrought : before.id ∈ (noted db events).candidates ∨ ∃ child ∈ closed, before.id ∈ parentOf db child := by
      rcases reached_candidate h hReflects.members hStored (hId.symm ▸ hReached) with hCandidate | hAbove
      · exact .inl hCandidate
      · have hFinal : ∀ plan, planStatus final plan = _ := fun plan => congrArg (planStatus · plan) (drains_noted hDrains)
        rcases above_candidate hReflects hFinal hAbove with hBrought | ⟨child, hChild, hOpen⟩
        · exact hBrought
        · exact absurd (hReady.finished.children child (hId ▸ hChild)) hOpen
    exact Bool.eq_false_iff.mp (drains_settled hDrains hStored hBrought) hCloses

end Reconciliation
end Daruma
