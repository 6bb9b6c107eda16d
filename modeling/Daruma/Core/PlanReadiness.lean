import Daruma.Core.PlanOverlay

/-! Plans that are open without work in them, in a database and in the overlay of a
batch over the one before. -/
namespace Daruma

open KeyedTable

/-- No work keeps a plan open: it has members, all of them finished, its children
are closed and it has no active run. -/
structure Finished (db : Database) (id : PlanId) : Prop where
  hasMembers : PlanRepo.listTasksOrdered db id ≠ []
  members : ∀ member ∈ PlanRepo.listTasksOrdered db id, ∃ status,
    db.statusOf member.taskId = some status ∧ status.isTerminal = true
  children : ∀ child ∈ PlanRepo.listChildren db id, child.status = .completed ∨ child.status = .abandoned
  runs : RunRepo.listActiveForPlan db id = []

/-- A plan is open though no work keeps it so. -/
structure ReadyToClose (db : Database) (plan : Plan) : Prop where
  stored : db.plans.find? plan.id = some plan
  active : plan.status = .active
  unarchived : plan.archivedAt = none
  finished : Finished db plan.id

variable {planId : PlanId}

theorem RunRepo.exists_active_iff {db : Database} {id : RunId} :
    (∃ run ∈ listActiveForPlan db planId, run.id = id) ↔ db.standing.run id = some (planId, true) := by
  constructor
  · rintro ⟨run, hRun, rfl⟩
    obtain ⟨hRow, hIs⟩ := List.mem_filter.mp (mem_orderBy.mp hRun)
    rw [Bool.and_eq_true, decide_eq_true_eq, decide_eq_true_eq] at hIs
    change (db.runs.find? run.id).map Run.standing = _
    rw [find?_of_mem hRow, Option.map_some, Run.standing, hIs.1, decide_eq_true hIs.2]
  · intro hStanding
    obtain ⟨run, hFound, hIs⟩ := Option.map_eq_some_iff.mp hStanding
    obtain ⟨hPlan, hActive⟩ := Prod.mk.inj hIs
    refine ⟨run, mem_orderBy.mpr (List.mem_filter.mpr ⟨mem_of_find? hFound, ?_⟩), key_of_find? hFound⟩
    rw [decide_eq_true hPlan, Bool.true_and]
    exact hActive

theorem PlanRepo.mem_listChildren {db : Database} {child : Plan} :
    child ∈ listChildren db planId ↔ db.plans.find? child.id = some child ∧ child.parentPlanId = some planId := by
  rw [listChildren, mem_orderBy, List.mem_filter, decide_eq_true_eq]
  exact and_congr_left fun _ => ⟨find?_of_mem, mem_of_find?⟩

namespace Reconciliation

/-- A database is what an overlay says of the one before. A run that it does not
end may have ended with a plan that is not open. -/
structure Reflects (db : Database) (final : Pending) (archived : PlanId → Bool) (after : Database) : Prop where
  members : after.planTasks.rows = db.planTasks.rows
  task : ∀ id, after.statusOf id = (db.statusOf id).map fun status => (final.taskStatuses.lookup id).getD status
  plan : ∀ id, (after.plans.find? id).map Plan.card = (db.plans.find? id).map fun plan =>
    ⟨planStatus final plan, plan.archivedAt.isSome || archived id, plan.parentPlanId⟩
  active : ∀ id planId, after.standing.run id = some (planId, true) →
    db.standing.run id = some (planId, true) ∧ id ∉ final.endedRuns
  kept : ∀ id planId, db.standing.run id = some (planId, true) → id ∉ final.endedRuns →
    after.standing.run id = some (planId, true) ∨
      ∀ plan, db.plans.find? planId = some plan → planStatus final plan ≠ .active

namespace Reflects

variable {db after : Database} {final : Pending} {archived : PlanId → Bool} {plan : Plan}

variable (h : Reflects db final archived after)

include h in
theorem listTasksOrdered (id : PlanId) : PlanRepo.listTasksOrdered after id = PlanRepo.listTasksOrdered db id := by
  unfold PlanRepo.listTasksOrdered
  rw [h.members]

include h in
theorem memberStatus (member : PlanTask) :
    Reconciliation.memberStatus db final member = after.statusOf member.taskId := by
  rw [h.task, Database.statusOf, Option.map_map]
  unfold Reconciliation.memberStatus
  cases hFound : db.tasks.find? member.taskId with
  | none => rfl
  | some task =>
    have hId : task.id = member.taskId := key_of_find? hFound
    simp [hId]

variable {id : PlanId}

include h in
theorem plan_before {plan : Plan}
    (hFound : after.plans.find? id = some plan) : ∃ before, db.plans.find? id = some before ∧
      planStatus final before = plan.status ∧ before.parentPlanId = plan.parentPlanId ∧
      (before.archivedAt.isSome || archived id) = plan.archivedAt.isSome := by
  have hCard := h.plan id
  rw [hFound, Option.map_some] at hCard
  obtain ⟨before, hBefore, hIs⟩ := Option.map_eq_some_iff.mp hCard.symm
  have hStatus : planStatus final before = plan.status := congrArg PlanCard.status hIs
  have hParent : before.parentPlanId = plan.parentPlanId := congrArg PlanCard.parent hIs
  have hArchived : (before.archivedAt.isSome || archived id) = plan.archivedAt.isSome := congrArg PlanCard.archived hIs
  exact ⟨before, hBefore, hStatus, hParent, hArchived⟩

include h in
theorem plan_after {plan : Plan}
    (hFound : db.plans.find? id = some plan) : ∃ later, after.plans.find? id = some later ∧
      later.status = planStatus final plan ∧ later.parentPlanId = plan.parentPlanId ∧
      later.archivedAt.isSome = (plan.archivedAt.isSome || archived id) := by
  have hCard := h.plan id
  rw [hFound, Option.map_some] at hCard
  obtain ⟨later, hLater, hIs⟩ := Option.map_eq_some_iff.mp hCard
  have hStatus : later.status = _ := congrArg PlanCard.status hIs
  have hParent : later.parentPlanId = _ := congrArg PlanCard.parent hIs
  have hArchived : later.archivedAt.isSome = _ := congrArg PlanCard.archived hIs
  exact ⟨later, hLater, hStatus, hParent, hArchived⟩

include h in
theorem finished (hClear : Clear db final plan) : Finished after plan.id := by
  refine ⟨?_, fun member hMember => ?_, fun child hChild => ?_, ?_⟩
  · rw [h.listTasksOrdered]
    exact hClear.hasMembers
  · rw [h.listTasksOrdered] at hMember
    obtain ⟨status, hStatus, hTerminal⟩ := hClear.members member hMember
    exact ⟨status, (h.memberStatus member).symm.trans hStatus, hTerminal⟩
  · obtain ⟨hFound, hParent⟩ := PlanRepo.mem_listChildren.mp hChild
    obtain ⟨before, hBefore, hStatus, hSameParent, _⟩ := h.plan_before hFound
    have hId : before.id = child.id := key_of_find? hBefore
    rw [← hStatus]
    exact hClear.children before (PlanRepo.mem_listChildren.mpr ⟨hId.symm ▸ hBefore, hSameParent.trans hParent⟩)
  · refine List.eq_nil_iff_forall_not_mem.mpr fun run hRun => ?_
    obtain ⟨hActive, hGoesOn⟩ := h.active run.id plan.id (RunRepo.exists_active_iff.mp ⟨run, hRun, rfl⟩)
    obtain ⟨before, hBefore, hId⟩ := RunRepo.exists_active_iff.mpr hActive
    exact hGoesOn (hId ▸ hClear.runs before hBefore)

include h in
theorem closes (hReady : ReadyToClose after plan) :
    ∃ before, db.plans.find? plan.id = some before ∧ Reconciliation.closes db final before = true := by
  obtain ⟨before, hBefore, hStatus, _, hArchived⟩ := h.plan_before hReady.stored
  have hId : before.id = plan.id := key_of_find? hBefore
  have hActive : planStatus final before = .active := hStatus.trans hReady.active
  rw [hReady.unarchived] at hArchived
  refine ⟨before, hBefore, closes_iff.mpr ⟨hActive, clear_iff.mpr ?_⟩⟩
  refine ⟨?_, ?_, fun member hMember => ?_, fun child hChild => ?_, fun run hRun => ?_⟩
  · cases hNone : before.archivedAt with
    | none => rfl
    | some instant =>
      rw [hNone] at hArchived
      cases hArchived
  · rw [← h.listTasksOrdered, hId]
    exact hReady.finished.hasMembers
  · rw [← h.listTasksOrdered, hId] at hMember
    obtain ⟨status, hStatus, hTerminal⟩ := hReady.finished.members member hMember
    exact ⟨status, (h.memberStatus member).trans hStatus, hTerminal⟩
  · obtain ⟨hFound, hParent⟩ := PlanRepo.mem_listChildren.mp hChild
    obtain ⟨later, hLater, hChildStatus, hSameParent, _⟩ := h.plan_after hFound
    have hChildId : later.id = child.id := key_of_find? hLater
    rw [← hChildStatus]
    refine hReady.finished.children later (PlanRepo.mem_listChildren.mpr ⟨hChildId.symm ▸ hLater, ?_⟩)
    exact hSameParent.trans (hParent.trans (congrArg some hId))
  · by_contra hGoesOn
    have hStanding := RunRepo.exists_active_iff.mp ⟨run, hRun, rfl⟩
    rcases h.kept run.id before.id hStanding hGoesOn with hAfter | hNot
    · obtain ⟨later, hLater, _⟩ := RunRepo.exists_active_iff.mpr hAfter
      rw [hId, hReady.finished.runs] at hLater
      exact absurd hLater List.not_mem_nil
    · exact hNot before (hId.symm ▸ hBefore) hActive

end Reflects
end Reconciliation
end Daruma
