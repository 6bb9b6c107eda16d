/-! Queues of items, each of which fires or is dropped when its turn comes. An item
that fires changes the state and puts the items that it may have woken in the queue. -/
namespace Daruma

open List

structure Worklist (State Item : Type) where
  fires : State → Item → Bool
  fire : State → Item → State
  wakes : Item → List Item

namespace Worklist

variable {State Item : Type}

/-- Work through a queue for a number of steps: the items that fire, in order. -/
def drain (work : Worklist State Item) : Nat → State → List Item → List Item
  | 0, _, _ => []
  | _ + 1, _, [] => []
  | steps + 1, state, item :: rest =>
    if work.fires state item then
      item :: drain work steps (work.fire state item) (rest ++ work.wakes item)
    else drain work steps state rest

/-- Working through a queue to its end: the items that fire, and the last state. -/
inductive Drains (work : Worklist State Item) : State → List Item → List Item → State → Prop where
  | done (state : State) : Drains work state [] [] state
  | drop {state final : State} {item : Item} {rest fired : List Item} (hStays : work.fires state item = false)
      (hRest : Drains work state rest fired final) : Drains work state (item :: rest) fired final
  | fire {state final : State} {item : Item} {rest fired : List Item} (hFires : work.fires state item = true)
      (hRest : Drains work (work.fire state item) (rest ++ work.wakes item) fired final) :
      Drains work state (item :: rest) (item :: fired) final

variable {work : Worklist State Item} {state final : State} {queue fired : List Item} {item : Item}

/-- A queue comes to its end when every firing uses up a share of a potential for
each item that it wakes, and one for itself. -/
theorem drain_drains {left : State → Nat} (hLeft : ∀ state item, work.fires state item = true →
      left (work.fire state item) + (work.wakes item).length ≤ left state) {steps : Nat}
    (hSteps : queue.length + left state ≤ steps) : ∃ final, Drains work state queue (work.drain steps state queue) final := by
  induction steps generalizing state queue with
  | zero =>
    cases queue with
    | nil => exact ⟨state, .done state⟩
    | cons item rest =>
      rw [length_cons] at hSteps
      omega
  | succ steps ih =>
    cases queue with
    | nil => exact ⟨state, .done state⟩
    | cons item rest =>
      rw [length_cons] at hSteps
      unfold drain
      cases hFires : work.fires state item with
      | false =>
        have hFewer : rest.length + left state ≤ steps := by omega
        obtain ⟨final, hRest⟩ := ih hFewer
        exact ⟨final, .drop hFires hRest⟩
      | true =>
        have hUsed := hLeft state item hFires
        have hFewer : (rest ++ work.wakes item).length + left (work.fire state item) ≤ steps := by
          rw [length_append]
          omega
        obtain ⟨final, hRest⟩ := ih hFewer
        exact ⟨final, .fire hFires hRest⟩

theorem Drains.preserves (inv : State → Prop)
    (hFire : ∀ state item, work.fires state item = true → inv state → inv (work.fire state item))
    (h : Drains work state queue fired final) (hStart : inv state) : inv final := by
  induction h with
  | done => exact hStart
  | drop hStays hRest ih => exact ih hStart
  | fire hFires hRest ih => exact ih (hFire _ _ hFires hStart)

theorem Drains.fired_in {inv : State → Prop}
    (hFire : ∀ state item, work.fires state item = true → inv state → inv (work.fire state item))
    (h : Drains work state queue fired final) (hStart : inv state) (hMem : item ∈ fired) :
    ∃ before later firedLater, inv before ∧ work.fires before item = true ∧
      Drains work (work.fire before item) later firedLater final := by
  induction h with
  | done => exact absurd hMem not_mem_nil
  | drop hStays hRest ih => exact ih hStart hMem
  | fire hFires hRest ih =>
    rcases mem_cons.mp hMem with rfl | hLater
    · exact ⟨_, _, _, hStart, hFires, hRest⟩
    · exact ih (hFire _ _ hFires hStart) hLater

theorem Drains.fired_nil (h : Drains work state queue fired final)
    (hStays : ∀ item ∈ queue, work.fires state item = false) : fired = [] := by
  induction h with
  | done => rfl
  | drop hFirst hRest ih => exact ih (forall_mem_cons.mp hStays).2
  | fire hFires hRest ih => exact absurd hFires (Bool.eq_false_iff.mp (forall_mem_cons.mp hStays).1)

theorem Drains.nodup (spent : Item → State → Prop) (hSpends : ∀ state item, spent item (work.fire state item))
    (hKept : ∀ item state other, work.fires state other = true → spent item state → spent item (work.fire state other))
    (hSpent : ∀ item state, spent item state → work.fires state item = false)
    (h : Drains work state queue fired final) : fired.Nodup := by
  induction h with
  | done => exact nodup_nil
  | drop hStays hRest ih => exact ih
  | fire hFires hRest ih =>
    refine nodup_cons.mpr ⟨fun hMem => ?_, ih⟩
    obtain ⟨before, _, _, hBefore, hAgain, _⟩ := hRest.fired_in (hKept _) (hSpends _ _) hMem
    exact Bool.noConfusion (hAgain.symm.trans (hSpent _ _ hBefore))

theorem Drains.settled (hWakes : ∀ state item other, work.fires state item = true → other ∉ work.wakes item →
      work.fires state other = false ∨ other = item → work.fires (work.fire state item) other = false)
    (h : Drains work state queue fired final) (other : Item) :
    (other ∈ queue ∨ work.fires state other = false ∨ ∃ item ∈ fired, other ∈ work.wakes item) →
      work.fires final other = false := by
  induction h with
  | done state =>
    rintro (hMem | hStays | ⟨item, hMem, _⟩)
    · exact absurd hMem not_mem_nil
    · exact hStays
    · exact absurd hMem not_mem_nil
  | drop hStays hRest ih =>
    rintro (hMem | hOther)
    · rcases mem_cons.mp hMem with rfl | hLater
      · exact ih (.inr (.inl hStays))
      · exact ih (.inl hLater)
    · exact ih (.inr hOther)
  | @fire state final item rest fired hFires hRest ih =>
    intro hOther
    by_cases hWoken : other ∈ work.wakes item
    · exact ih (.inl (mem_append_right _ hWoken))
    · have hQuiet : work.fires state other = false ∨ other = item →
          work.fires final other = false :=
        fun hIs => ih (.inr (.inl (hWakes state item other hFires hWoken hIs)))
      rcases hOther with hMem | hStays | ⟨first, hMem, hIn⟩
      · rcases mem_cons.mp hMem with hIs | hLater
        · exact hQuiet (.inr hIs)
        · exact ih (.inl (mem_append_left _ hLater))
      · exact hQuiet (.inl hStays)
      · rcases mem_cons.mp hMem with rfl | hLater
        · exact absurd hIn hWoken
        · exact ih (.inr (.inr ⟨first, hLater, hIn⟩))

end Worklist
end Daruma
