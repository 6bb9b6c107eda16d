import Daruma.Core.WarrantedBatches
import Daruma.Core.WorkHistory
import Daruma.Library.Ancestry
import Daruma.Storage.PlanSteps

/-! The tree of plans: what the check of a new parent walks through, and how deep
the nesting of plans gets over runs. -/
namespace Daruma

open Ancestry
open DirectedGraph (Acyclic)

namespace PlanConcurrency

variable {db : Database} {id above : PlanId}

theorem walkParents_ok {hops : Nat} {current : PlanId} (h : walkParents db id hops current = .ok ()) :
    (∀ links top, climb db.planParent links current = some top → links < hops) ∧
      ∀ links, climb db.planParent (links + 1) current ≠ some id := by
  induction hops generalizing current with
  | zero => cases h
  | succ hops ih =>
    unfold walkParents at h
    split at h
    · rename_i hRoot
      have hNone : ∀ links top, climb db.planParent (links + 1) current ≠ some top := by
        intro links top hClimb
        obtain ⟨next, hNext, _⟩ := climb_succ.mp hClimb
        cases hRoot.symm.trans hNext
      refine ⟨fun links top hClimb => ?_, fun links => hNone links id⟩
      cases links with
      | zero => omega
      | succ links => exact absurd hClimb (hNone links top)
    · rename_i parent hParent
      split at h
      · cases h
      · rename_i hOther
        obtain ⟨hDepth, hClear⟩ := ih h
        constructor
        · intro links top hClimb
          cases links with
          | zero => omega
          | succ links =>
            obtain ⟨next, hNext, hRest⟩ := climb_succ.mp hClimb
            obtain rfl := Option.some.inj (hParent.symm.trans hNext)
            exact Nat.succ_lt_succ (hDepth links top hRest)
        · intro links hClimb
          obtain ⟨next, hNext, hRest⟩ := climb_succ.mp hClimb
          obtain rfl := Option.some.inj (hParent.symm.trans hNext)
          cases links with
          | zero => exact hOther (Option.some.inj hRest)
          | succ links => exact hClear links hRest

theorem detectParentCycle_ok (h : detectParentCycle db id above = .ok ()) :
    (∀ links top, climb db.planParent links above = some top → links < maxParentDepth) ∧
      ∀ links, climb db.planParent links above ≠ some id := by
  unfold detectParentCycle at h
  split at h
  · cases h
  · rename_i hOther
    obtain ⟨hDepth, hClear⟩ := walkParents_ok h
    refine ⟨hDepth, fun links hClimb => ?_⟩
    cases links with
    | zero => exact hOther (Option.some.inj hClimb)
    | succ links => exact hClear links hClimb

end PlanConcurrency

open PlanConcurrency (detectParentCycle detectParentCycle_ok maxParentDepth)

/-- With everything below the plan, a parent has room for it. -/
def FitsUnder (db : Database) (id above : PlanId) : Prop :=
  ∀ below beyond node top, climb db.planParent below node = some id → climb db.planParent beyond above = some top →
    below + 1 + beyond ≤ maxParentDepth

def Childless (db : Database) (id : PlanId) : Prop := ∀ child, db.planParent child ≠ some id

/-- The command puts a plan under a parent, and has checked the parent. -/
def Command.Reparents (db : Database) (env : Env) (command : Command) (child above : PlanId) : Prop :=
  detectParentCycle db child above = .ok () ∧
    ((command.createsPlan = true ∧ child = env.fresh 0) ∨ ((db.plans.find? child).isSome = true ∧
      ∃ patch, command = .plan (.updatePlan child patch) ∧ patch.parentPlanId = some (some above)))

/-- Plans have the parents that they had, or those that a command gives them. -/
def Reparented (gives : PlanId → PlanId → Prop) (before after : Database) : Prop :=
  ∀ child above, after.planParent child = some above → before.planParent child = some above ∨ gives child above

section

variable {db : Database} {env : Env} {command : Command} {id child above : PlanId}

theorem Reparented.work (gives : PlanId → PlanId → Prop) : WorkRelation (Reparented gives) where
  trans := fun _ _ _ h h' child above hAfter => (h' child above hAfter).elim (h child above) .inr
  same := fun before after h child above hAfter => by
    rw [Database.planParent, h.plans] at hAfter
    exact .inl hAfter

theorem fitsUnder_of_childless (hLeaf : Childless db id) (hChecked : detectParentCycle db id above = .ok ()) :
    FitsUnder db id above := by
  intro below beyond node top hBelow hBeyond
  have hRoom := (detectParentCycle_ok hChecked).1 beyond top hBeyond
  cases below with
  | zero => omega
  | succ below =>
    obtain ⟨middle, _, hLast⟩ : ∃ middle, climb db.planParent below node = some middle ∧
        climb db.planParent 1 middle = some id := climb_split hBelow
    obtain ⟨next, hNext, hIs⟩ := climb_succ.mp hLast
    cases hIs
    exact absurd hNext (hLeaf middle)

theorem childless_of_rows (h : (db.plans.rows.all fun plan => plan.parentPlanId ≠ some id) = true) :
    Childless db id := by
  intro child hChild
  obtain ⟨plan, hFound, hIs⟩ := Option.bind_eq_some_iff.mp hChild
  exact of_decide_eq_true (List.all_eq_true.mp h plan (KeyedTable.mem_of_find? hFound)) hIs

def Command.movedPlan (env : Env) : Command → PlanId
  | .plan (.updatePlan id _) => id
  | _ => env.fresh 0

theorem Command.Reparents.child_eq (h : command.Reparents db env child above) : child = command.movedPlan env := by
  rcases h.2 with ⟨hCreates, rfl⟩ | ⟨_, patch, rfl, _⟩
  · cases command with
    | plan command =>
      cases command with
      | updatePlan => cases hCreates
      | _ => rfl
    | _ => rfl
  · rfl

theorem Reparented.moved {after : Database} (h : Reparented (command.Reparents db env) db after) :
    Moved db.planParent after.planParent (command.movedPlan env) (command.Reparents db env (command.movedPlan env)) where
  others := fun child above hOther hAfter =>
    (h child above hAfter).resolve_right fun hGives => hOther hGives.child_eq
  moves := fun above hAfter => h _ above hAfter

theorem Command.Reparents.avoids (h : command.Reparents db env child above) (links : Nat) :
    climb db.planParent links above ≠ some child := (detectParentCycle_ok h.1).2 links

theorem Warranted.reparents {event : PlanEvent} (h : Warranted db env command (.plan event))
    (hSets : event.SetsParent child above) : command.Reparents db env child above := by
  cases event with
  | planCreated plan =>
    obtain ⟨rfl, hParent⟩ := hSets
    obtain ⟨hId, hCreates, hChecked⟩ := h
    exact ⟨hChecked above hParent, .inl ⟨hCreates, hId⟩⟩
  | planUpdated id patch =>
    obtain ⟨rfl, hParent⟩ := hSets
    obtain ⟨hChecked, hStored, hCommand⟩ := h above hParent
    exact ⟨hChecked, .inr ⟨hStored, patch, hCommand, hParent⟩⟩
  | _ => cases hSets

end

namespace Server

open Handler (builderEnv)

variable {config : Config} {db : Database} {call : Call}

def Call.Reparents (db : Database) : Call → PlanId → PlanId → Prop
  | .command env _ command _ => command.Reparents db (builderEnv env)
  | _ => fun _ _ => False

theorem serve_reparented (config : Config) (db : Database) (call : Call) :
    Reparented (Call.Reparents db call) db (serve config db call) := by
  cases call with
  | command env caller command claimed =>
    refine Handler.handle_work (Reparented.work _) fun {batch relations trail persisted appended} hAccepted => ?_
    refine ⟨?_, fun event hMem db' env envelope child above hAfter => ?_, fun event _ db' => ?_⟩
    · obtain ⟨_, _, _, _, _, rfl⟩ := hAccepted.frame
      exact fun _ _ hAfter => .inl hAfter
    · refine (PlanRepo.planParent_applyPlanEvent hAfter).imp_right fun hSets =>
        (hAccepted.warranted hMem ?_).reparents hSets
      cases event with
      | sourceUpserted => cases hSets
      | _ => rfl
    · obtain ⟨runs, runSteps, runNotes, hFrame⟩ := RunRepo.applyRunEvent_frame db' event
      rw [hFrame]
      exact fun _ _ hAfter => .inl hAfter
  | _ =>
    refine serve_work (Reparented.work _) (fun event _ db' => ?_) rfl
    obtain ⟨runs, runSteps, runNotes, hFrame⟩ := RunRepo.applyRunEvent_frame db' event
    rw [hFrame]
    exact fun _ _ hAfter => .inl hAfter

def ParentsAcyclic (db : Database) : Prop := Acyclic (Link db.planParent)

/-- No plan has more ancestors than the limit. -/
def WithinDepth (db : Database) : Prop := Bounded db.planParent maxParentDepth

/-- No plan is its own ancestor, and none is nested deeper than the limit. -/
def PlanTree (db : Database) : Prop := ParentsAcyclic db ∧ WithinDepth db

theorem serve_parentsAcyclic (h : ParentsAcyclic db) : ParentsAcyclic (serve config db call) := by
  have hGiven := serve_reparented config db call
  cases call with
  | command env caller command claimed => exact acyclic_moved h hGiven.moved fun above hGives => hGives.avoids
  | _ => exact h.mono fun child above hAfter => (hGiven child above hAfter).resolve_right not_false

theorem run_parentsAcyclic (calls : List Call) : ParentsAcyclic (run config calls) := by
  have hEmpty : ParentsAcyclic Database.empty :=
    DirectedGraph.acyclic_of_no_edge fun child above hLink => by cases hLink
  exact run_induction hEmpty (fun _ _ h _ => serve_parentsAcyclic h) (Meets.of_forall fun _ _ => trivial)

/-- A new plan has an id that no plan names as its parent, and a plan that is moved
under another parent fits there with everything below it. -/
def KeepsDepth (db : Database) : Call → Prop
  | .command env _ command _ =>
    (command.createsPlan = true → Childless db ((builderEnv env).fresh 0)) ∧
      ∀ id patch above, command = .plan (.updatePlan id patch) → patch.parentPlanId = some (some above) →
        (db.plans.find? id).isSome = true → detectParentCycle db id above = .ok () → FitsUnder db id above
  | _ => True

theorem serve_withinDepth (h : WithinDepth db) (hKeeps : KeepsDepth db call) :
    WithinDepth (serve config db call) := by
  have hGiven := serve_reparented config db call
  cases call with
  | command env caller command claimed =>
    refine Bounded.moved h hGiven.moved (fun above hGives => hGives.avoids) fun above hGives => ?_
    rcases hGives with ⟨hChecked, ⟨hCreates, hIs⟩ | ⟨hStored, patch, hCommand, hParent⟩⟩
    · exact fitsUnder_of_childless (hIs ▸ hKeeps.1 hCreates) hChecked
    · exact hKeeps.2 _ patch above hCommand hParent hStored hChecked
  | _ => exact Bounded.mono h fun child above hAfter => (hGiven child above hAfter).resolve_right not_false

/-- In a run whose new ids are new and whose moved plans fit, plans form trees of
the permitted depth. -/
theorem plan_tree_run {calls : List Call} (hMeets : Meets config KeepsDepth Database.empty calls) :
    PlanTree (run config calls) := by
  have hEmpty : WithinDepth Database.empty := by
    intro links node above hClimb
    cases links with
    | zero => omega
    | succ links =>
      obtain ⟨next, hNext, _⟩ := climb_succ.mp hClimb
      cases hNext
  have hWithin : WithinDepth (run config calls) := run_induction hEmpty (fun _ _ => serve_withinDepth) hMeets
  exact ⟨Bounded.acyclic hWithin, hWithin⟩

/-- The plan that the `n`-th call of a run creates. -/
private def nthPlan (n : Nat) : PlanId := (builderEnv (nthEnv n)).fresh 0

private def createUnder (parent : Option PlanId) : Command :=
  .plan (.createPlan { NewPlan.new "plan" ⟨0⟩ .anyUser with parentPlanId := parent } none)

private def moveUnder (id parent : PlanId) : Command :=
  .plan (.updatePlan id ⟨none, none, none, none, some (some parent)⟩)

def movedPlanRun : List Call :=
  commands [createUnder none, createUnder none, moveUnder (nthPlan 1) (nthPlan 0)]

theorem plan_tree_movedPlanRun : PlanTree (run engineConfig movedPlanRun) := by
  refine plan_tree_run ⟨⟨fun _ => childless_of_rows (by decide +kernel), fun _ _ _ hIs => by cases hIs⟩,
    ⟨fun _ => childless_of_rows (by decide +kernel), fun _ _ _ hIs => by cases hIs⟩,
    ⟨(fun hCreates => by cases hCreates), fun id patch above hIs hParent _ hChecked => ?_⟩, trivial⟩
  cases hIs
  cases hParent
  exact fitsUnder_of_childless (childless_of_rows (by decide +kernel)) hChecked

/-- A chain of three plans, and a chain of two that is moved under its end. -/
def deepPlanRun : List Call := commands [
  createUnder none, createUnder (some (nthPlan 0)), createUnder (some (nthPlan 1)),
  createUnder none, createUnder (some (nthPlan 3)), moveUnder (nthPlan 3) (nthPlan 2)]

/-- The lower plan of the moved chain has more ancestors than the limit. -/
theorem moved_chain_too_deep : ¬PlanTree (run engineConfig deepPlanRun) := by
  have hClimb : climb (run engineConfig deepPlanRun).planParent 4 (nthPlan 4) = some (nthPlan 0) := by decide +kernel
  exact fun hTree => absurd (hTree.2 4 _ _ hClimb) (by decide)

end Server
end Daruma
