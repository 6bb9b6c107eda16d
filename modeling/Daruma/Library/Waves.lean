import Mathlib.Data.Fintype.EquivFin
import Mathlib.Data.Fintype.Sets
import Mathlib.Logic.Relation

/-! Items that wait for others: which of them can ever go ahead, and the waves in which
they do when every item that waits for none is peeled off, again and again. -/
namespace Waves

open List

open Relation

variable {α : Type}

/-- An item goes ahead: it is available, and what it waits for goes ahead before it. -/
inductive Grounded (available : α → Prop) (waits : α → α → Prop) : α → Prop
  | go {x : α} (hHere : available x) (hBefore : ∀ y, waits x y → Grounded available waits y) : Grounded available waits x

variable {avail : α → Prop} {waits : α → α → Prop} {x : α}

/-- Something holds an item up for good: it waits, at the end of a chain, for an item that
is not available, or for one that waits for itself. -/
def HeldUp (available : α → Prop) (waits : α → α → Prop) (x : α) : Prop :=
  ∃ y, ReflTransGen waits x y ∧ (¬available y ∨ TransGen waits y y)

theorem Grounded.available (h : Grounded avail waits x) : avail x := by
  cases h with
  | go hHere => exact hHere

theorem Grounded.reaches (h : Grounded avail waits x) {y : α} (hPath : ReflTransGen waits x y) :
    Grounded avail waits y := by
  induction hPath with
  | refl => exact h
  | tail _ hStep ih =>
    cases ih with
    | go _ hBefore => exact hBefore _ hStep

theorem Grounded.acyclic (h : Grounded avail waits x) : ¬TransGen waits x x := by
  induction h with
  | go _ _ ih =>
    intro hCycle
    obtain ⟨y, hFirst, hBack⟩ := TransGen.head'_iff.mp hCycle
    exact ih y hFirst (TransGen.tail' hBack hFirst)

theorem grounded_iff {items : List α} (hItems : ∀ x, avail x → x ∈ items) :
    Grounded avail waits x ↔ ¬HeldUp avail waits x := by
  constructor
  · rintro h ⟨y, hPath, hNot | hCycle⟩
    · exact hNot (h.reaches hPath).available
    · exact (h.reaches hPath).acyclic hCycle
  · intro hFree
    have hAvailable : ∀ y, ReflTransGen waits x y → avail y := fun y hPath =>
      not_not.mp fun hNot => hFree ⟨y, hPath, .inl hNot⟩
    classical
    -- what the item waits for is finite and has no cycle, so it can be gone through upwards
    let Ahead := { y // ReflTransGen waits x y }
    have hFinite : Finite Ahead :=
      Finite.of_injective (fun y : Ahead => (⟨y.1, hItems y.1 (hAvailable y.1 y.2)⟩ : { y // y ∈ items }))
        fun a b hSame => Subtype.ext (Subtype.mk.inj hSame)
    have hTrans : IsTrans Ahead fun a b => TransGen waits b.1 a.1 := ⟨fun _ _ _ hFirst hSecond => hSecond.trans hFirst⟩
    have hIrrefl : Std.Irrefl fun a b : Ahead => TransGen waits b.1 a.1 := ⟨fun a hCycle => hFree ⟨a.1, a.2, .inr hCycle⟩⟩
    have hWf := Finite.wellFounded_of_trans_of_irrefl fun a b : Ahead => TransGen waits b.1 a.1
    have hAll : ∀ a : Ahead, Grounded avail waits a.1 := fun a =>
      hWf.induction (C := fun a => Grounded avail waits a.1) a fun b ih =>
        .go (hAvailable b.1 b.2) fun y hStep => ih ⟨y, b.2.tail hStep⟩ (.single hStep)
    exact hAll ⟨x, .refl⟩

variable [DecidableEq α]

/-- The items, in their order, that are left and wait for nothing. -/
def ready (order remaining : List α) (incoming : α → List α) : List α :=
  (order.filter fun x => x ∈ remaining).filter fun x => (incoming x).isEmpty

/-- Peel off what is ready, until nothing is left or nothing is ready. -/
def peel (order : List α) : Nat → List α → (α → List α) → List (List α)
  | 0, _, _ => []
  | steps + 1, remaining, incoming =>
    if remaining.isEmpty then []
    else
      let wave := ready order remaining incoming
      if wave.isEmpty then []
      else wave :: peel order steps (remaining.filter fun x => x ∉ wave) fun x => (incoming x).filter fun y => y ∉ wave

variable {order remaining : List α} {incoming : α → List α} {steps : Nat}

theorem mem_ready : x ∈ ready order remaining incoming ↔ x ∈ order ∧ x ∈ remaining ∧ incoming x = [] := by
  rw [ready, List.mem_filter, List.mem_filter, List.isEmpty_iff, decide_eq_true_eq, and_assoc]

/-- An item is among the first to go ahead, or does so when these are gone. -/
theorem grounded_step :
    Grounded (· ∈ remaining) (fun x y => y ∈ incoming x) x ↔ x ∈ ready order remaining incoming ∨
      Grounded (· ∈ remaining.filter fun x => x ∉ ready order remaining incoming)
        (fun x y => y ∈ (incoming x).filter fun y => y ∉ ready order remaining incoming) x := by
  constructor
  · intro h
    induction h with
    | @go x hHere _ ih =>
      by_cases hReady : x ∈ ready order remaining incoming
      · exact .inl hReady
      · refine .inr (.go (mem_filter.mpr ⟨hHere, decide_eq_true hReady⟩) fun y hMem => ?_)
        obtain ⟨hIn, hLater⟩ := mem_filter.mp hMem
        exact (ih y hIn).resolve_left (of_decide_eq_true hLater)
  · have hFirst : ∀ y ∈ ready order remaining incoming, Grounded (· ∈ remaining) (fun x y => y ∈ incoming x) y := by
      intro y hReady
      obtain ⟨-, hHere, hNone⟩ := mem_ready.mp hReady
      exact .go hHere fun z hMem => absurd (hNone ▸ hMem) not_mem_nil
    rintro (hReady | hLater)
    · exact hFirst x hReady
    · induction hLater with
      | @go x hHere _ ih =>
        refine .go (mem_filter.mp hHere).1 fun y hMem => ?_
        by_cases hReady : y ∈ ready order remaining incoming
        · exact hFirst y hReady
        · exact ih y (mem_filter.mpr ⟨hMem, decide_eq_true hReady⟩)

theorem not_grounded_of_ready_nil (hOrder : remaining ⊆ order) (hNone : ready order remaining incoming = []) :
    ¬Grounded (· ∈ remaining) (fun x y => y ∈ incoming x) x := by
  intro h
  induction h with
  | @go x hHere _ ih =>
    cases hWaits : incoming x with
    | nil => exact absurd (mem_ready.mpr ⟨hOrder hHere, hHere, hWaits⟩) (hNone ▸ not_mem_nil)
    | cons y rest => exact ih y (hWaits ▸ mem_cons_self)

theorem length_left (hSome : (ready order remaining incoming).isEmpty = false) :
    (remaining.filter fun x => x ∉ ready order remaining incoming).length < remaining.length := by
  obtain ⟨x, rest, hReady⟩ := exists_cons_of_ne_nil (isEmpty_eq_false_iff.mp hSome)
  have hMem : x ∈ ready order remaining incoming := hReady ▸ mem_cons_self
  refine length_filter_lt_length_iff_exists.mpr ⟨x, (mem_ready.mp hMem).2.1, ?_⟩
  simpa using hMem

theorem mem_peel (hOrder : remaining ⊆ order) (hSteps : remaining.length ≤ steps) :
    x ∈ (peel order steps remaining incoming).flatten ↔ Grounded (· ∈ remaining) (fun x y => y ∈ incoming x) x := by
  induction steps generalizing remaining incoming with
  | zero =>
    rw [length_eq_zero_iff.mp (Nat.le_zero.mp hSteps)]
    exact iff_of_false not_mem_nil fun h => not_mem_nil h.available
  | succ steps ih =>
    unfold peel
    split
    · rename_i hEmpty
      rw [isEmpty_iff.mp hEmpty]
      exact iff_of_false not_mem_nil fun h => not_mem_nil h.available
    · dsimp only
      split
      · rename_i hNone
        exact iff_of_false not_mem_nil (not_grounded_of_ready_nil hOrder (isEmpty_iff.mp hNone))
      · rename_i hSome
        have hFewer := length_left (Bool.eq_false_iff.mpr hSome)
        rw [flatten_cons, mem_append]
        exact (or_congr_right (ih (fun y hMem => hOrder (mem_filter.mp hMem).1) (by omega))).trans grounded_step.symm

/-- The first wave holds what is ready at the start. -/
theorem head_peel (hHere : x ∈ remaining) (hSteps : remaining.length ≤ steps) :
    (∃ wave ∈ (peel order steps remaining incoming).head?, x ∈ wave) ↔ x ∈ ready order remaining incoming := by
  cases steps with
  | zero => exact absurd (length_eq_zero_iff.mp (Nat.le_zero.mp hSteps)) (ne_nil_of_mem hHere)
  | succ steps =>
    unfold peel
    rw [if_neg (by simpa using ne_nil_of_mem hHere)]
    dsimp only
    split
    · rename_i hNone
      simp [isEmpty_iff.mp hNone]
    · simp

/-- An item waits for items of earlier waves only. -/
theorem peel_earlier {before after : List (List α)} {wave : List α}
    (h : peel order steps remaining incoming = before ++ wave :: after) (hMem : x ∈ wave) :
    ∀ y ∈ incoming x, y ∈ before.flatten := by
  induction steps generalizing remaining incoming before with
  | zero => simp [peel] at h
  | succ steps ih =>
    unfold peel at h
    dsimp only at h
    split_ifs at h with hEmpty hNone
    · simp at h
    · simp at h
    · cases before with
      | nil =>
        obtain ⟨rfl, -⟩ := cons_eq_cons.mp h
        rw [(mem_ready.mp hMem).2.2]
        exact fun y hIn => absurd hIn not_mem_nil
      | cons first before =>
        obtain ⟨rfl, hRest⟩ := cons_eq_cons.mp h
        intro y hIn
        rw [flatten_cons, mem_append]
        by_cases hReady : y ∈ ready order remaining incoming
        · exact .inl hReady
        · exact .inr (ih hRest y (mem_filter.mpr ⟨hIn, decide_eq_true hReady⟩))

theorem nodup_peel (hOrder : remaining ⊆ order) (hNodup : order.Nodup) (hSteps : remaining.length ≤ steps) :
    (peel order steps remaining incoming).flatten.Nodup := by
  induction steps generalizing remaining incoming with
  | zero => exact nodup_nil
  | succ steps ih =>
    unfold peel
    dsimp only
    split_ifs with hEmpty hNone
    · exact nodup_nil
    · exact nodup_nil
    · have hFewer := length_left (Bool.eq_false_iff.mpr hNone)
      have hRest : (remaining.filter fun x => x ∉ ready order remaining incoming) ⊆ order := fun y hMem =>
        hOrder (mem_filter.mp hMem).1
      rw [flatten_cons, nodup_append]
      refine ⟨(hNodup.filter _).filter _, ih hRest (by omega), fun y hReady z hLater hSame => ?_⟩
      have hIn := ((mem_peel hRest (by omega)).mp hLater).available
      exact of_decide_eq_true (mem_filter.mp hIn).2 (hSame ▸ hReady)

end Waves
