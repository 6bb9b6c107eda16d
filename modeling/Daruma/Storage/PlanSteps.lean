import Daruma.Storage.PlanRepo

/-! How the events of plans change the parents of plans. -/
namespace Daruma

open KeyedTable

def Database.planParent (db : Database) (id : PlanId) : Option PlanId :=
  (db.plans.find? id).bind Plan.parentPlanId

def PlanEvent.SetsParent : PlanEvent → PlanId → PlanId → Prop
  | .planCreated plan, child, above => plan.id = child ∧ plan.parentPlanId = some above
  | .planUpdated id patch, child, above => id = child ∧ patch.parentPlanId = some (some above)
  | _, _, _ => False

namespace PlanRepo

variable {db : Database} {env : Env} {envelope : EventEnvelope} {child above id : PlanId}

theorem planParent_modify (f : Plan → Plan) (hId : ∀ plan, (f plan).id = plan.id)
    (hParent : ∀ plan, (f plan).parentPlanId = plan.parentPlanId) :
    (updatePlan db id f).planParent child = db.planParent child := by
  unfold Database.planParent updatePlan
  rw [find?_modify _ _ _ _ hId]
  split
  · cases db.plans.find? child with
    | none => rfl
    | some plan => exact hParent plan
  · rfl

theorem planParent_of_updatePlan {f : Plan → Plan} (h : (updatePlan db id f).planParent child = some above)
    (hId : ∀ plan, (f plan).id = plan.id) (hParent : ∀ plan, (f plan).parentPlanId = plan.parentPlanId) :
    db.planParent child = some above :=
  (planParent_modify f hId hParent).symm.trans h

variable {instant : Timestamp} {position : Nat}

theorem planParent_touchPlan : (touchPlan db id instant).planParent child = db.planParent child := by
  refine planParent_modify _ (fun plan => ?_) fun plan => ?_
  · split <;> rfl
  · split <;> rfl

theorem planParent_addTask {taskId : TaskId} {dependsOn : List TaskId} :
    (addTask db id taskId position dependsOn).planParent child = db.planParent child := by
  unfold addTask
  dsimp only
  split <;> rfl

theorem planParent_reorder {order : List TaskId} :
    (reorder db id position order).planParent child = db.planParent child := by
  induction order generalizing db position with
  | nil => rfl
  | cons taskId rest ih => exact ih

theorem planParent_upsertSource {source : SourceNode} :
    (upsertSource db source).planParent child = db.planParent child := by
  unfold upsertSource
  split <;> rfl

theorem planParent_applyPatch {patch : PlanPatch} (h : (applyPatch db env envelope id patch).planParent child = some above) :
    db.planParent child = some above ∨ (id = child ∧ patch.parentPlanId = some (some above)) := by
  unfold applyPatch at h
  split at h
  · exact .inl h
  · rename_i plan hFound
    have hWritten : ∀ touched : Database, touched.planParent child = db.planParent child →
        Option.bind ((touched.plans.insertOrReplace (patch.apply plan env.now)).find? child) Plan.parentPlanId =
          some above → db.planParent child = some above ∨ (id = child ∧ patch.parentPlanId = some (some above)) := by
      intro touched hSame h
      rw [find?_insertOrReplace] at h
      split at h
      · rename_i hIs
        have hKey : plan.id = id := key_of_find? hFound
        have hChild : id = child := hKey.symm.trans hIs
        rw [Option.bind_some, PlanPatch.apply] at h
        cases hPatched : patch.parentPlanId with
        | none =>
          rw [hPatched] at h
          refine .inl ?_
          rw [Database.planParent, ← hChild, hFound]
          exact h
        | some patched =>
          rw [hPatched] at h
          obtain rfl : patched = some above := h
          exact .inr ⟨hChild, rfl⟩
      · exact .inl (hSame.symm.trans h)
    dsimp only at h
    split at h
    · split at h
      · exact hWritten _ planParent_touchPlan h
      · exact hWritten _ rfl h
    · exact hWritten _ rfl h

theorem planParent_deletePlan (h : (deletePlan db id instant).planParent child = some above) :
    db.planParent child = some above := by
  have hErased : ∀ touched : Database, touched.planParent child = db.planParent child →
      Option.bind ((touched.plans.erase id).find? child) Plan.parentPlanId = some above →
      db.planParent child = some above := by
    intro touched hSame h
    by_cases hIs : child = id
    · rw [hIs, find?_erase_self] at h
      cases h
    · rw [find?_erase_of_ne _ hIs] at h
      exact hSame.symm.trans h
  unfold deletePlan at h
  dsimp only at h
  split at h
  · exact hErased _ planParent_touchPlan h
  · exact hErased _ rfl h

theorem planParent_applyPlanEvent {event : PlanEvent}
    (h : (applyPlanEvent db env envelope event).planParent child = some above) :
    db.planParent child = some above ∨ event.SetsParent child above := by
  cases event with
  | planCreated plan =>
    change (Option.bind ((db.plans.insertOrReplace plan).find? child) Plan.parentPlanId) = some above at h
    rw [find?_insertOrReplace] at h
    split at h
    · rename_i hIs
      exact .inr ⟨hIs, h⟩
    · exact .inl h
  | planUpdated id patch => exact planParent_applyPatch h
  | planDeleted id instant => exact .inl (planParent_deletePlan h)
  | planTaskAdded => exact .inl (planParent_addTask.symm.trans h)
  | planReordered => exact .inl (planParent_reorder.symm.trans h)
  | sourceUpserted => exact .inl (planParent_upsertSource.symm.trans h)
  | planSourceSet id sourceRef instant =>
    refine .inl (planParent_of_updatePlan h (fun plan => ?_) fun plan => ?_)
    · split <;> rfl
    · split <;> rfl
  | planStatusChanged | planGoalChanged | planArchived =>
    exact .inl (planParent_of_updatePlan h (fun _ => rfl) fun _ => rfl)
  | planTaskRemoved | planTaskAmended | planModifiedByHuman => exact .inl h

end PlanRepo
end Daruma
