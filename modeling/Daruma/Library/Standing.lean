import Mathlib.Data.List.Basic
import Mathlib.Data.List.Induction

/-! Stores that one operation after the other writes. Such a store holds what some
operation has made and all after it have kept. -/
namespace Standing

variable {Store Op Entry : Type} {makes keeps : Op → Entry → Prop} {history : List Op} {op : Op} {entry : Entry}

/-- The history has made the entry, and kept it since. -/
def Stands (makes keeps : Op → Entry → Prop) (history : List Op) (entry : Entry) : Prop :=
  ∃ before op after, history = before ++ op :: after ∧ makes op entry ∧ ∀ later ∈ after, keeps later entry

theorem stands_concat : Stands makes keeps (history ++ [op]) entry ↔
    makes op entry ∨ Stands makes keeps history entry ∧ keeps op entry := by
  constructor
  · rintro ⟨before, made, after, hSplit, hMakes, hKept⟩
    obtain rfl | ⟨init, last, rfl⟩ := List.eq_nil_or_concat' after
    · obtain ⟨_, hLast⟩ := List.append_inj' hSplit rfl
      exact .inl (List.singleton_inj.mp hLast ▸ hMakes)
    · rw [← List.cons_append, ← List.append_assoc] at hSplit
      obtain ⟨hInit, hLast⟩ := List.append_inj' hSplit rfl
      obtain ⟨hInitKept, hLastKept⟩ := List.forall_mem_append.mp hKept
      refine .inr ⟨⟨before, made, init, hInit, hMakes, hInitKept⟩, ?_⟩
      rw [List.singleton_inj.mp hLast]
      exact hLastKept last List.mem_cons_self
  · rintro (hMakes | ⟨⟨before, made, after, rfl, hMakes, hKept⟩, hKeeps⟩)
    · exact ⟨history, op, [], rfl, hMakes, List.forall_mem_nil _⟩
    · exact ⟨before, made, after ++ [op], by rw [List.append_assoc, List.cons_append], hMakes,
        List.forall_mem_append.mpr ⟨hKept, List.forall_mem_singleton.mpr hKeeps⟩⟩

/-- From what every operation does to the entry, what a whole history does to it. -/
theorem holds_iff {step : Store → Op → Store} {holds : Store → Prop} {start : Store} (hStart : ¬holds start)
    (hStep : ∀ store op, holds (step store op) ↔ makes op entry ∨ holds store ∧ keeps op entry)
    (history : List Op) : holds (history.foldl step start) ↔ Stands makes keeps history entry := by
  induction history using List.reverseRecOn with
  | nil => exact ⟨fun h => absurd h hStart, by rintro ⟨_, _, _, hNil, _⟩; simp at hNil⟩
  | append_singleton history op ih => rw [List.foldl_append, List.foldl_cons, List.foldl_nil, hStep, ih, stands_concat]

end Standing
