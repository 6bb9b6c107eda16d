import Daruma.Core.Reconciliation
import Daruma.Library.Worklist

/-! The reconciliation of plans as a queue that comes to its end: the plans that it
closes, what was true of them, and what it leaves open. -/
namespace Daruma

open List KeyedTable
namespace Reconciliation

variable {db : Database} {pending : Pending} {plan : Plan} {id : PlanId}

/-- Nothing but its status keeps a plan from closing. -/
def clear (db : Database) (pending : Pending) (plan : Plan) : Bool :=
  plan.archivedAt.isNone &&
    planReadyToClose ((PlanRepo.listTasksOrdered db plan.id).map (memberStatus db pending))
      ((PlanRepo.listChildren db plan.id).map (planStatus pending)) &&
    (RunRepo.listActiveForPlan db plan.id).all fun run => run.id ∈ pending.endedRuns

theorem closes_iff : closes db pending plan = true ↔
    planStatus pending plan = .active ∧ clear db pending plan = true := by
  simp only [closes, clear, Bool.and_eq_true, decide_eq_true_eq, and_assoc]

/-- What a plan needs apart from its status. -/
structure Clear (db : Database) (pending : Pending) (plan : Plan) : Prop where
  unarchived : plan.archivedAt = none
  hasMembers : PlanRepo.listTasksOrdered db plan.id ≠ []
  members : ∀ member ∈ PlanRepo.listTasksOrdered db plan.id, ∃ status,
    memberStatus db pending member = some status ∧ status.isTerminal = true
  children : ∀ child ∈ PlanRepo.listChildren db plan.id,
    planStatus pending child = .completed ∨ planStatus pending child = .abandoned
  runs : ∀ run ∈ RunRepo.listActiveForPlan db plan.id, run.id ∈ pending.endedRuns

theorem clear_iff : clear db pending plan = true ↔ Clear db pending plan := by
  simp only [clear, planReadyToClose, Bool.and_eq_true, Option.isNone_iff_eq_none, Bool.not_eq_true',
    isEmpty_eq_false_iff, ne_eq, map_eq_nil_iff, all_map, all_eq_true, Function.comp_apply,
    Option.any_eq_true, Bool.or_eq_true, decide_eq_true_eq]
  constructor
  · rintro ⟨⟨hUnarchived, ⟨hSome, hMembers⟩, hChildren⟩, hRuns⟩
    exact ⟨hUnarchived, hSome, hMembers, hChildren, hRuns⟩
  · rintro ⟨hUnarchived, hSome, hMembers, hChildren, hRuns⟩
    exact ⟨⟨hUnarchived, ⟨hSome, hMembers⟩, hChildren⟩, hRuns⟩

def completed (pending : Pending) (id : PlanId) : Pending :=
  { pending with planStatuses := (id, .completed) :: pending.planStatuses }

theorem planStatus_completed : planStatus (completed pending id) plan =
    if plan.id = id then .completed else planStatus pending plan := by
  unfold planStatus completed
  rw [lookup_cons]
  by_cases hIs : plan.id = id
  · rw [if_pos hIs, hIs, beq_self_eq_true]
    rfl
  · rw [if_neg hIs, beq_false_of_ne hIs]

def closure (db : Database) (id : PlanId) : PlanEvent :=
  .planStatusChanged id (((db.plans.find? id).map Plan.status).getD .active) .completed

/-- A candidate closes when it is stored and ready, and brings its parent up. -/
def closing (db : Database) : Worklist Pending PlanId where
  fires pending id := (db.plans.find? id).any (closes db pending)
  fire := completed
  wakes := parentOf db

theorem fires_iff : (closing db).fires pending id = true ↔
    ∃ plan, db.plans.find? id = some plan ∧ closes db pending plan = true :=
  Option.any_eq_true ..

theorem drain_eq (steps : Nat) (pending : Pending) (queue : List PlanId) : drain db steps { pending with candidates := queue } =
    ((closing db).drain steps pending queue).map (closure db) := by
  induction steps generalizing pending queue with
  | zero => rfl
  | succ steps ih =>
    cases queue with
    | nil => rfl
    | cons id rest =>
      unfold drain Worklist.drain
      dsimp only
      cases hFound : db.plans.find? id with
      | none =>
        have hStays : (closing db).fires pending id = false := by
          change (db.plans.find? id).any (closes db pending) = false
          rw [hFound]
          rfl
        rw [hStays]
        exact ih _ _
      | some plan =>
        have hSame : (closing db).fires pending id = closes db { pending with candidates := id :: rest } plan := by
          change (db.plans.find? id).any (closes db pending) = _
          rw [hFound]
          rfl
        dsimp only
        rw [← hSame]
        split
        · have hWakes : (closing db).wakes id = plan.parentPlanId.toList := by
            change parentOf db id = _
            rw [parentOf, hFound]
            rfl
          rw [map_cons, closure, hFound, hWakes]
          have hRest : drain db steps { completed pending id with candidates := rest ++ plan.parentPlanId.toList } =
              ((closing db).drain steps (completed pending id) (rest ++ plan.parentPlanId.toList)).map (closure db) :=
            ih _ _
          exact congrArg _ hRest
        · exact ih _ _

def openPlans (db : Database) (pending : Pending) : Nat :=
  db.plans.rows.countP fun plan => planStatus pending plan = .active

theorem openPlans_completed (hFires : (closing db).fires pending id = true) :
    openPlans db (completed pending id) + 1 ≤ openPlans db pending := by
  obtain ⟨plan, hFound, hCloses⟩ := fires_iff.mp hFires
  have hRow : plan ∈ db.plans.rows := mem_of_find? hFound
  have hId : plan.id = id := key_of_find? hFound
  obtain ⟨before, after, hRows⟩ := append_of_mem hRow
  have hFewer : ∀ rows : List Plan, rows.countP (fun plan => planStatus (completed pending id) plan = .active) ≤
      rows.countP fun plan => planStatus pending plan = .active := by
    refine fun rows => countP_mono_left fun other _ hActive => ?_
    rw [decide_eq_true_eq, planStatus_completed] at hActive
    split at hActive
    · cases hActive
    · exact decide_eq_true hActive
  have hBefore := hFewer before
  have hAfter := hFewer after
  unfold openPlans
  rw [hRows, countP_append, countP_append, countP_cons, countP_cons, planStatus_completed,
    if_pos hId, (closes_iff.mp hCloses).1]
  simp only [decide_true, if_true, reduceCtorEq, decide_false, Bool.false_eq_true, if_false]
  omega

theorem closing_left (pending : Pending) (id : PlanId) (hFires : (closing db).fires pending id = true) :
    openPlans db ((closing db).fire pending id) + ((closing db).wakes id).length ≤ openPlans db pending := by
  have hUsed := openPlans_completed hFires
  have hParents : ((closing db).wakes id).length ≤ 1 := by
    change ((db.plans.find? id).bind Plan.parentPlanId).toList.length ≤ 1
    cases (db.plans.find? id).bind Plan.parentPlanId with
    | none => exact Nat.zero_le 1
    | some above => exact Nat.le_refl 1
  change openPlans db (completed pending id) + _ ≤ _
  omega

/-- The overlay of a batch before its plans are reconciled. -/
def noted (db : Database) (events : List Event) : Pending := events.foldl (note db) ⟨[], [], [], []⟩

theorem planReconciliations_drains (db : Database) (events : List Event) : ∃ closed final,
    planReconciliations db events = closed.map (closure db) ∧
      (closing db).Drains (noted db events) (noted db events).candidates closed final := by
  have hRows : openPlans db (noted db events) ≤ db.plans.rows.length := countP_le_length
  have hSteps : (noted db events).candidates.length + openPlans db (noted db events) ≤
      (noted db events).candidates.length + db.plans.rows.length := by omega
  obtain ⟨final, hDrains⟩ := Worklist.drain_drains closing_left hSteps
  refine ⟨_, final, ?_, hDrains⟩
  exact drain_eq _ (noted db events) (noted db events).candidates

variable {queue closed : List PlanId} {final : Pending}

theorem Clear.completed (h : Clear db pending plan) (id : PlanId) : Clear db (completed pending id) plan := by
  refine ⟨h.unarchived, h.hasMembers, h.members, fun child hChild => ?_, h.runs⟩
  rw [planStatus_completed]
  split
  · exact .inl rfl
  · exact h.children child hChild

theorem drains_clear (h : (closing db).Drains pending queue closed final) (hMem : id ∈ closed) :
    ∃ plan, db.plans.find? id = some plan ∧ planStatus pending plan = .active ∧ planStatus final plan = .completed ∧
      Clear db final plan := by
  have hActive : ∀ before other, (closing db).fires before other = true →
      (∀ plan, planStatus before plan = .active → planStatus pending plan = .active) →
      ∀ plan, planStatus (Reconciliation.completed before other) plan = .active → planStatus pending plan = .active := by
    intro before other _ hBefore plan hIs
    rw [planStatus_completed] at hIs
    split at hIs
    · cases hIs
    · exact hBefore plan hIs
  obtain ⟨before, later, firedLater, hBefore, hFires, hRest⟩ := h.fired_in hActive (fun _ hIs => hIs) hMem
  obtain ⟨plan, hFound, hCloses⟩ := fires_iff.mp hFires
  obtain ⟨hOpen, hClear⟩ := closes_iff.mp hCloses
  refine ⟨plan, hFound, hBefore plan hOpen, ?_, ?_⟩
  · refine hRest.preserves (fun state => planStatus state plan = .completed) (fun state other _ hIs => ?_) ?_
    · change planStatus (Reconciliation.completed state other) plan = .completed
      rw [planStatus_completed, hIs, ite_self]
    · change planStatus (Reconciliation.completed before id) plan = .completed
      rw [planStatus_completed, if_pos (key_of_find? hFound)]
  · exact hRest.preserves (fun state => Clear db state plan) (fun state other _ hIs => hIs.completed other)
      ((clear_iff.mp hClear).completed id)

theorem drains_nodup (h : (closing db).Drains pending queue closed final) : closed.Nodup := by
  refine h.nodup (fun id state => ∀ plan, plan.id = id → planStatus state plan = .completed) ?_ ?_ ?_
  · intro state id plan hIs
    change planStatus (Reconciliation.completed state id) plan = .completed
    rw [planStatus_completed, if_pos hIs]
  · intro id state other _ hSpent plan hIs
    change planStatus (Reconciliation.completed state other) plan = .completed
    rw [planStatus_completed, hSpent plan hIs, ite_self]
  · intro id state hSpent
    refine Bool.eq_false_iff.mpr fun hFires => ?_
    obtain ⟨plan, hFound, hCloses⟩ := fires_iff.mp hFires
    have hOpen := (closes_iff.mp hCloses).1
    rw [hSpent plan (key_of_find? hFound)] at hOpen
    cases hOpen

theorem closes_completed (hOther : plan.id ∉ parentOf db id)
    (hStays : closes db pending plan = false) : closes db (completed pending id) plan = false := by
  refine Bool.eq_false_iff.mpr fun hCloses => Bool.eq_false_iff.mp hStays ?_
  obtain ⟨hActive, hClear⟩ := closes_iff.mp hCloses
  have hClear := clear_iff.mp hClear
  refine closes_iff.mpr ⟨?_, clear_iff.mpr ⟨hClear.unarchived, hClear.hasMembers, hClear.members, fun child hChild => ?_,
    hClear.runs⟩⟩
  · rw [planStatus_completed] at hActive
    split at hActive
    · cases hActive
    · exact hActive
  · have hClosed := hClear.children child hChild
    rw [planStatus_completed] at hClosed
    split at hClosed
    · rename_i hIs
      obtain ⟨hRow, hParent⟩ := List.mem_filter.mp (mem_orderBy.mp hChild)
      refine absurd (Option.mem_toList.mpr ?_) hOther
      rw [← hIs, find?_of_mem (mem_rows.mp hRow)]
      exact of_decide_eq_true hParent
    · exact hClosed

theorem drains_settled (h : (closing db).Drains pending queue closed final) (hFound : db.plans.find? plan.id = some plan)
    (hBrought : plan.id ∈ queue ∨ ∃ child ∈ closed, plan.id ∈ parentOf db child) : closes db final plan = false := by
  have hQuiet : (closing db).fires final plan.id = false := by
    refine h.settled (fun state item other _ hOther hIs => ?_) plan.id (hBrought.imp_right .inr)
    refine Bool.eq_false_iff.mpr fun hFires => ?_
    obtain ⟨found, hOtherFound, hCloses⟩ := fires_iff.mp hFires
    obtain rfl : found.id = other := key_of_find? hOtherFound
    rcases hIs with hStays | hSame
    · refine Bool.eq_false_iff.mp (closes_completed hOther ?_) hCloses
      exact Bool.eq_false_iff.mpr fun hWas => Bool.eq_false_iff.mp hStays (fires_iff.mpr ⟨found, hOtherFound, hWas⟩)
    · have hOpen := (closes_iff.mp hCloses).1
      change planStatus (Reconciliation.completed state item) found = .active at hOpen
      rw [planStatus_completed, if_pos hSame] at hOpen
      cases hOpen
  exact Bool.eq_false_iff.mpr fun hCloses => Bool.eq_false_iff.mp hQuiet (fires_iff.mpr ⟨plan, hFound, hCloses⟩)

theorem drains_overlay (h : (closing db).Drains pending queue closed final) :
    final.taskStatuses = pending.taskStatuses ∧ final.endedRuns = pending.endedRuns ∧
      final.planStatuses = (closed.reverse.map fun id => (id, .completed)) ++ pending.planStatuses := by
  induction h with
  | done => exact ⟨rfl, rfl, rfl⟩
  | drop hStays hRest ih => exact ih
  | fire hFires hRest ih =>
    obtain ⟨hTasks, hRuns, hPlans⟩ := ih
    refine ⟨hTasks, hRuns, hPlans.trans ?_⟩
    rw [reverse_cons, map_append, append_assoc]
    rfl

end Reconciliation
end Daruma
