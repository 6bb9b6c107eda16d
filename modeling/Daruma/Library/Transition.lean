import Mathlib.Logic.Relation

/-! Runs of a transition relation. A run is a reflexive and transitive closure
of steps; the rules below are the two inductions on runs that safety arguments
need. -/
namespace Transition

open Relation

universe u

variable {State : Type u} {step : State → State → Prop} {inv : State → Prop} {start finish : State}

/-- Any number of steps from one state to another. -/
abbrev Trace (step : State → State → Prop) : State → State → Prop := ReflTransGen step

/-- One step never leaves the predicate. -/
def Preserves (step : State → State → Prop) (inv : State → Prop) : Prop :=
  ∀ ⦃before after⦄, step before after → inv before → inv after

theorem Preserves.trace (h : Preserves step inv) (steps : Trace step start finish)
    (hStart : inv start) : inv finish := by
  induction steps with
  | refl => exact hStart
  | tail _ last ih => exact h last ih

theorem Preserves.and_of {base : State → Prop} (hBase : Preserves step base)
    (h : ∀ ⦃before after⦄, step before after → base before → inv before → inv after) :
    Preserves step (fun state => base state ∧ inv state) :=
  fun _ _ hStep hBoth => ⟨hBase hStep hBoth.1, h hStep hBoth.1 hBoth.2⟩

/-- What held at the start of a run and fails at its end was lost in one
particular step of it. -/
theorem exists_losing_step (inv : State → Prop) (steps : Trace step start finish) (hStart : inv start)
    (hFinish : ¬inv finish) : ∃ before after, Trace step start before ∧ step before after ∧
      Trace step after finish ∧ inv before ∧ ¬inv after := by
  induction steps with
  | refl => exact absurd hStart hFinish
  | @tail middle last prior hLast ih =>
    by_cases hMiddle : inv middle
    · exact ⟨middle, last, prior, hLast, ReflTransGen.refl, hMiddle, hFinish⟩
    · obtain ⟨before, after, hBefore, hStep, hAfter, held, lost⟩ := ih hMiddle
      exact ⟨before, after, hBefore, hStep, hAfter.tail hLast, held, lost⟩

end Transition
