import Mathlib.Data.List.Lex
import Mathlib.Algebra.Order.Group.Nat

/-! Numbers written with a fixed number of digits compare as texts, and so do such
texts after the last of their zeros have been cut off, behind a mark below every digit. -/
namespace Numerals

open List

variable {α : Type}

/-- The last `width` digits of a number, the first the one that weighs most. -/
def numeral (glyph : Nat → α) (base : Nat) : Nat → Nat → List α
  | 0, _ => []
  | width + 1, n => glyph (n / base ^ width % base) :: numeral glyph base width n

section Digits

variable {glyph : Nat → α} {base width n : Nat}

@[simp] theorem numeral_length : (numeral glyph base width n).length = width := by
  induction width with
  | zero => rfl
  | succ width ih => rw [numeral, length_cons, ih]

theorem mem_numeral {c : α} (hBase : 0 < base) (h : c ∈ numeral glyph base width n) :
    ∃ digit < base, c = glyph digit := by
  induction width with
  | zero => cases h
  | succ width ih =>
    rcases mem_cons.mp h with rfl | hRest
    · exact ⟨_, Nat.mod_lt _ hBase, rfl⟩
    · exact ih hRest

end Digits

variable [LT α]

section Order

variable {glyph : Nat → α} {base width a b : Nat}

theorem numeral_mod_lt (hBase : 0 < base) (hGlyph : ∀ i j, i < j → j < base → glyph i < glyph j)
    (h : a % base ^ width < b % base ^ width) : numeral glyph base width a < numeral glyph base width b := by
  induction width with
  | zero => simp [Nat.mod_one] at h
  | succ width ih =>
    rw [Nat.mod_pow_succ, Nat.mod_pow_succ] at h
    have hRest : ∀ n, n % base ^ width < base ^ width := fun n => Nat.mod_lt _ (Nat.pow_pos hBase)
    rcases Nat.lt_trichotomy (a / base ^ width % base) (b / base ^ width % base) with hLess | hSame | hMore
    · exact .rel (hGlyph _ _ hLess (Nat.mod_lt _ hBase))
    · rw [numeral, numeral, hSame]
      rw [hSame] at h
      exact .cons (ih (Nat.lt_of_add_lt_add_right h))
    · -- A greater first digit outweighs all that follow.
      refine absurd h (Nat.not_lt.mpr ?_)
      calc b % base ^ width + base ^ width * (b / base ^ width % base)
          ≤ base ^ width + base ^ width * (b / base ^ width % base) := Nat.add_le_add_right (hRest b).le _
        _ = base ^ width * (b / base ^ width % base + 1) := by rw [Nat.mul_succ, Nat.add_comm]
        _ ≤ base ^ width * (a / base ^ width % base) := Nat.mul_le_mul_left _ hMore
        _ ≤ a % base ^ width + base ^ width * (a / base ^ width % base) := Nat.le_add_left _ _

theorem numeral_lt (hGlyph : ∀ i j, i < j → j < base → glyph i < glyph j) (h : a < b)
    (hFits : b < base ^ width) : numeral glyph base width a < numeral glyph base width b := by
  have hBase : 0 < base := by
    rcases Nat.eq_zero_or_pos base with rfl | hBase
    · cases width with
      | zero => simp at hFits; omega
      | succ width => simp at hFits
    · exact hBase
  refine numeral_mod_lt hBase hGlyph ?_
  rwa [Nat.mod_eq_of_lt hFits, Nat.mod_eq_of_lt (h.trans hFits)]

end Order

/-- What follows two texts of one length does not count where they differ. -/
theorem append_lt_append {x y u v : List α} (hLength : x.length = y.length) (h : x < y) :
    x ++ u < y ++ v := by
  induction x generalizing y with
  | nil => cases y with
    | nil => cases h
    | cons => cases hLength
  | cons c x ih => cases h with
    | rel hLess => exact .rel hLess
    | cons hRest => exact .cons (ih (Nat.succ.inj hLength) hRest)

section Cut

variable {zero stop : α} {x y u v : List α} {w n : Nat}

/-- Nothing of the same length is below a text of zeros. -/
theorem not_lt_of_zeros (hLength : x.length = y.length) (hZero : ∀ c ∈ x, ¬c < zero) (hZeros : ∀ c ∈ y, c = zero) :
    ¬x < y := by
  intro h
  induction x generalizing y with
  | nil => cases y with
    | nil => cases h
    | cons => cases hLength
  | cons c x ih => cases h with
    | rel hLess => exact hZero c mem_cons_self (hZeros _ mem_cons_self ▸ hLess)
    | cons hRest =>
      exact ih (Nat.succ.inj hLength) (fun c hc => hZero c (mem_cons_of_mem _ hc))
        (fun c hc => hZeros c (mem_cons_of_mem _ hc)) hRest

/-- Texts of one length keep their order when each is cut and ends in a mark below every
digit, as long as the greater one loses zeros only. -/
theorem take_stop_lt (hLength : x.length = y.length) (h : x < y) (hZero : ∀ c ∈ x, ¬c < zero)
    (hStop : ∀ c ∈ y, stop < c) (hCut : ∀ c ∈ y.drop n, c = zero) :
    x.take w ++ stop :: u < y.take n ++ stop :: v := by
  induction x generalizing y w n with
  | nil => cases y with
    | nil => cases h
    | cons => cases hLength
  | cons c x ih => cases y with
    | nil => cases hLength
    | cons d y =>
      cases n with
      | zero => exact absurd h (not_lt_of_zeros hLength hZero hCut)
      | succ n => cases w with
        | zero => exact .rel (hStop d mem_cons_self)
        | succ w => cases h with
          | rel hLess => exact .rel hLess
          | cons hRest =>
            exact .cons (ih (Nat.succ.inj hLength) hRest (fun c hc => hZero c (mem_cons_of_mem _ hc))
              (fun c hc => hStop c (mem_cons_of_mem _ hc)) hCut)

end Cut

end Numerals
