import Daruma.Core.DocumentBatches

/-! What a batch records of plans and runs, and what the builder that records it has
checked. Only the commands about plans and runs steer either. -/
namespace Daruma

open Outcome List
open PlanConcurrency (detectParentCycle)

def Event.isSource : Event → Bool
  | .plan (.sourceUpserted _) => true
  | _ => false

/-- What a builder checks before it records an event about a plan. -/
def PlanWarranted (db : Database) (env : Env) (command : Command) : PlanEvent → Prop
  | .planCreated plan => plan.id = env.fresh 0 ∧ command.createsPlan = true ∧
      ∀ parent, plan.parentPlanId = some parent → detectParentCycle db plan.id parent = .ok ()
  | .planUpdated id patch => ∀ parent, patch.parentPlanId = some (some parent) →
      detectParentCycle db id parent = .ok () ∧ (db.plans.find? id).isSome = true ∧
        command = .plan (.updatePlan id patch)
  | .planStatusChanged id fromStatus toStatus => toStatus = .completed ∨
      (∃ plan, db.plans.find? id = some plan ∧ plan.status = fromStatus) ∧
        ((fromStatus = .completed ∧ toStatus = .active) ∨
          ∃ force reason, command = .plan (.setPlanStatus id toStatus force reason))
  | .sourceUpserted _ => False
  | _ => True

/-- What a builder checks before it records an event about a plan or a run. -/
def Warranted (db : Database) (env : Env) (command : Command) : Event → Prop
  | .plan event => PlanWarranted db env command event
  | .run event => RunWarranted db env command event
  | _ => True

theorem MayRecord.warranted {db : Database} {env : Env} {links : Bool} {command : Command} {event : Event}
    (h : MayRecord db env links command event) : event.isSource = true ∨ Warranted db env command event := by
  cases h with
  | planCreated hCreates hId hParent => exact .inr ⟨hId, hCreates, hParent⟩
  | planUpdated hPlan hParent => exact .inr fun parent hPatched => ⟨hParent parent hPatched, hPlan, rfl⟩
  | goalUpdated => exact .inr fun _ hPatched => by cases hPatched
  | planReopened hPlan hStatus => exact .inr (.inr ⟨⟨_, hPlan, hStatus⟩, .inl ⟨rfl, rfl⟩⟩)
  | planMoved hPlan => exact .inr (.inr ⟨⟨_, hPlan, rfl⟩, .inr ⟨_, _, rfl⟩⟩)
  | run _ hRun | planRun _ hRun => exact .inr hRun
  | source => exact .inl rfl
  | @aside command event hAside =>
    cases event with
    | planGoalChanged | planTaskAmended | planReordered | planModifiedByHuman => exact .inr trivial
    | _ => cases hAside
  | _ => exact .inr trivial

namespace Handler

variable {config : Config} {db : Database} {env : Env} {caller : Caller} {actor claimed : Actor}
  {command : Command} {batch : List Event} {relations : Relations} {trail : GateStage.Trail}
  {persisted : List EventEnvelope} {appended : Database}

abbrev AllDrafted (db : Database) (env : Env) (command : Command) (events : List Event) : Prop :=
  Everywhere (fun event => event.isSource = true ∨ Warranted db env command event) events

theorem draft_warranted : Stateful.Yields (draft config db env caller actor command)
    fun drafted => AllDrafted db (env.part 1) command drafted.1 :=
  draft_rule (fun _ hRecords => hRecords.warranted) fun _ _ => .inr (.inl rfl)

theorem Accepted.warranted
    (h : Accepted config env caller command claimed db batch relations trail persisted appended) {event : Event}
    (hMem : event ∈ batch) (hOther : event.isSource = false) : Warranted db (builderEnv env) command event := by
  obtain ⟨warnings, hBuilt⟩ := h.built
  refine (draft_warranted _ _ _ hBuilt event hMem).resolve_left fun hIs => ?_
  cases hIs.symm.trans hOther

end Handler
end Daruma
