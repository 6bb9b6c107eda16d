import Mathlib.Data.List.Basic
import Mathlib.Logic.Relation

/-! Breadth-first search. A queue holds the nodes that are found and not yet expanded,
with the distance at which they were found; the rules below are what one round of a
search keeps, and what holds once the queue is empty. -/
namespace BreadthFirst

open List

open Relation

universe u

variable {Node : Type u} {edge : Node → Node → Prop} {start : Node} {bound : Nat}

/-- A node at most so many edges from the start. -/
inductive Within (edge : Node → Node → Prop) (start : Node) : Nat → Node → Prop where
  | start (n : Nat) : Within edge start n start
  | step {n : Nat} {node next : Node} (hNode : Within edge start n node) (hEdge : edge node next) :
      Within edge start (n + 1) next

theorem Within.mono {n m : Nat} {node : Node} (h : Within edge start n node) (hLe : n ≤ m) : Within edge start m node := by
  induction h generalizing m with
  | start n => exact .start m
  | step hNode hEdge ih =>
    obtain ⟨k, rfl⟩ := Nat.exists_eq_add_of_le hLe
    rw [Nat.add_right_comm]
    exact .step (ih (Nat.le_add_right _ _)) hEdge

/-- A search on its way: what is found, and the queue. Distances in the queue are exact,
they are sorted, and they differ by one at most; what is found and not in the queue was
expanded, unless it is too far. -/
structure Layered (edge : Node → Node → Prop) (start : Node) (bound : Nat) (found : Node → Prop)
    (queue : List (Node × Nat)) : Prop where
  started : found start
  sound : ∀ node, found node → Within edge start bound node
  queued : ∀ entry ∈ queue, found entry.1 ∧ Within edge start entry.2 entry.1 ∧ entry.2 ≤ bound
  exact : ∀ entry ∈ queue, ∀ n, Within edge start n entry.1 → entry.2 ≤ n
  expanded : ∀ node, found node → (∃ n, (node, n) ∈ queue) ∨ (∀ next, edge node next → found next) ∨
    ∀ n, Within edge start n node → bound ≤ n
  sorted : queue.Pairwise fun entry later => entry.2 ≤ later.2
  near : ∀ first ∈ queue.head?, ∀ entry ∈ queue, entry.2 ≤ first.2 + 1
  reached : ∀ first ∈ queue.head?, ∀ node, Within edge start first.2 node → found node

namespace Layered

variable {found found' : Node → Prop} {queue rest news : List (Node × Nat)} {node : Node} {n : Nat}

theorem init (edge : Node → Node → Prop) (start : Node) (bound : Nat) :
    Layered edge start bound (fun node => node = start) [(start, 0)] where
  started := rfl
  sound := by
    rintro node rfl
    exact .start bound
  queued := by
    intro entry hEntry
    rw [mem_singleton] at hEntry
    subst hEntry
    exact ⟨rfl, .start 0, Nat.zero_le _⟩
  exact := by
    intro entry hEntry n _
    rw [mem_singleton] at hEntry
    subst hEntry
    exact Nat.zero_le n
  expanded := by
    rintro node rfl
    exact .inl ⟨0, mem_singleton.mpr rfl⟩
  sorted := pairwise_singleton _ _
  near := by
    intro first _ entry hEntry
    rw [mem_singleton] at hEntry
    subst hEntry
    exact Nat.zero_le _
  reached := by
    intro first hFirst node hNode
    cases hFirst
    cases hNode
    rfl

theorem reached_next (h : Layered edge start bound found ((node, n) :: queue)) (hMore : ∀ node, found node → found' node)
    (hExpanded : ∀ node, found' node → (∃ n, (node, n) ∈ rest) ∨ (∀ next, edge node next → found' next) ∨
      ∀ n, Within edge start n node → bound ≤ n)
    (hExact : ∀ entry ∈ rest, ∀ n, Within edge start n entry.1 → entry.2 ≤ n)
    (hSorted : rest.Pairwise fun entry later => entry.2 ≤ later.2) {first : Node × Nat} (hFirst : first ∈ rest.head?)
    (hBound : first.2 ≤ bound) (hNear : first.2 ≤ n + 1) {other : Node} (hOther : Within edge start first.2 other) :
    found' other := by
  have hBefore : ∀ node, Within edge start n node → found' node := fun node hNode =>
    hMore node (h.reached (_, _) rfl node hNode)
  rcases Nat.lt_or_ge n first.2 with hLater | hSame
  · -- the node before it on the way is found, and is neither in the queue nor too far
    have hNext : first.2 = n + 1 := Nat.le_antisymm hNear hLater
    rw [hNext] at hOther
    cases hOther with
    | start => exact hBefore start (.start n)
    | step hNode hEdge =>
      rename_i before
      rcases hExpanded before (hBefore before hNode) with ⟨m, hQueued⟩ | hClosed | hFar
      · have hLeast : m ≤ n := hExact _ hQueued n hNode
        have hAfter : first.2 ≤ m := by
          cases rest with
          | nil => cases hFirst
          | cons head tail =>
            cases hFirst
            rcases mem_cons.mp hQueued with hHead | hTail
            · exact Nat.le_of_eq (congrArg Prod.snd hHead.symm)
            · exact (pairwise_cons.mp hSorted).1 _ hTail
        omega
      · exact hClosed other hEdge
      · have := hFar n hNode
        omega
  · exact hBefore other (hOther.mono hSame)

theorem skip (h : Layered edge start bound found ((node, n) :: rest)) (hFar : bound ≤ n) :
    Layered edge start bound found rest := by
  have hExpanded : ∀ other, found other → (∃ n, (other, n) ∈ rest) ∨ (∀ next, edge other next → found next) ∨
      ∀ n, Within edge start n other → bound ≤ n := by
    intro other hOther
    rcases h.expanded other hOther with ⟨m, hQueued⟩ | hRest
    · rcases mem_cons.mp hQueued with hIs | hLater
      · cases hIs
        exact .inr (.inr fun k hWithin => Nat.le_trans hFar (h.exact _ mem_cons_self k hWithin))
      · exact .inl ⟨m, hLater⟩
    · exact .inr hRest
  have hExact : ∀ entry ∈ rest, ∀ n, Within edge start n entry.1 → entry.2 ≤ n := fun entry hEntry =>
    h.exact entry (mem_cons_of_mem _ hEntry)
  have hSorted := (pairwise_cons.mp h.sorted).2
  refine ⟨h.started, h.sound, fun entry hEntry => h.queued entry (mem_cons_of_mem _ hEntry), hExact, hExpanded,
    hSorted, ?_, ?_⟩
  · intro first hFirst entry hEntry
    have hAfter := (pairwise_cons.mp h.sorted).1 first (mem_of_mem_head? hFirst)
    have hNear := h.near (_, _) rfl entry (mem_cons_of_mem _ hEntry)
    dsimp only at hAfter hNear
    omega
  · intro first hFirst other hOther
    have hMem := mem_of_mem_head? hFirst
    exact h.reached_next (fun _ h => h) hExpanded hExact hSorted hFirst (h.queued first (mem_cons_of_mem _ hMem)).2.2
      (h.near (_, _) rfl first (mem_cons_of_mem _ hMem)) hOther

theorem expand (h : Layered edge start bound found ((node, n) :: rest)) (hClose : n < bound)
    (hFound : ∀ other, found' other ↔ found other ∨ edge node other)
    (hNews : ∀ entry ∈ news, entry.2 = n + 1 ∧ edge node entry.1 ∧ ¬found entry.1)
    (hQueued : ∀ other, found' other → ¬found other → (other, n + 1) ∈ news) :
    Layered edge start bound found' (rest ++ news) := by
  have hHere := h.queued _ mem_cons_self
  have hMore : ∀ other, found other → found' other := fun other hOther => (hFound other).mpr (.inl hOther)
  have hReached := h.reached (_, _) rfl
  have hExpanded : ∀ other, found' other → (∃ n, (other, n) ∈ rest ++ news) ∨ (∀ next, edge other next → found' next) ∨
      ∀ n, Within edge start n other → bound ≤ n := by
    intro other hOther
    by_cases hOld : found other
    · rcases h.expanded other hOld with ⟨m, hQueued⟩ | hClosed | hFar
      · rcases mem_cons.mp hQueued with hIs | hLater
        · cases hIs
          exact .inr (.inl fun next hEdge => (hFound next).mpr (.inr hEdge))
        · exact .inl ⟨m, mem_append_left _ hLater⟩
      · exact .inr (.inl fun next hEdge => hMore next (hClosed next hEdge))
      · exact .inr (.inr hFar)
    · exact .inl ⟨n + 1, mem_append_right _ (hQueued other hOther hOld)⟩
  have hExact : ∀ entry ∈ rest ++ news, ∀ m, Within edge start m entry.1 → entry.2 ≤ m := by
    intro entry hEntry m hWithin
    rcases mem_append.mp hEntry with hOld | hNew
    · exact h.exact entry (mem_cons_of_mem _ hOld) m hWithin
    · obtain ⟨hLabel, _, hUnfound⟩ := hNews entry hNew
      rw [hLabel]
      by_contra hShort
      exact hUnfound (hReached _ (hWithin.mono (by omega)))
  have hSorted : (rest ++ news).Pairwise fun entry later => entry.2 ≤ later.2 := by
    refine pairwise_append.mpr ⟨(pairwise_cons.mp h.sorted).2, ?_, fun entry hEntry later hLater => ?_⟩
    · refine pairwise_of_forall_mem_list fun entry hEntry later hLater => ?_
      exact Nat.le_of_eq ((hNews entry hEntry).1.trans (hNews later hLater).1.symm)
    · rw [(hNews later hLater).1]
      exact h.near (_, _) rfl entry (mem_cons_of_mem _ hEntry)
  have hLabels : ∀ entry ∈ rest ++ news, n ≤ entry.2 ∧ entry.2 ≤ n + 1 := by
    intro entry hEntry
    rcases mem_append.mp hEntry with hOld | hNew
    · exact ⟨(pairwise_cons.mp h.sorted).1 entry hOld, h.near (_, _) rfl entry (mem_cons_of_mem _ hOld)⟩
    · rw [(hNews entry hNew).1]
      exact ⟨Nat.le_succ n, Nat.le_refl _⟩
  have hQueue : ∀ entry ∈ rest ++ news, found' entry.1 ∧ Within edge start entry.2 entry.1 ∧ entry.2 ≤ bound := by
    intro entry hEntry
    rcases mem_append.mp hEntry with hOld | hNew
    · obtain ⟨hIs, hWithin, hLe⟩ := h.queued entry (mem_cons_of_mem _ hOld)
      exact ⟨hMore _ hIs, hWithin, hLe⟩
    · obtain ⟨hLabel, hEdge, _⟩ := hNews entry hNew
      rw [hLabel]
      exact ⟨(hFound _).mpr (.inr hEdge), .step hHere.2.1 hEdge, hClose⟩
  refine ⟨hMore _ h.started, ?_, hQueue, hExact, hExpanded, hSorted, ?_, ?_⟩
  · intro other hOther
    rcases (hFound other).mp hOther with hOld | hEdge
    · exact h.sound other hOld
    · exact (Within.step hHere.2.1 hEdge).mono hClose
  · intro first hFirst entry hEntry
    have hFrom := (hLabels first (mem_of_mem_head? hFirst)).1
    have hTo := (hLabels entry hEntry).2
    omega
  · intro first hFirst other hOther
    have hMem := mem_of_mem_head? hFirst
    exact h.reached_next hMore hExpanded hExact hSorted hFirst (hQueue first hMem).2.2 (hLabels first hMem).2 hOther

theorem finished (h : Layered edge start bound found []) : found node ↔ Within edge start bound node := by
  refine ⟨h.sound node, fun hWithin => ?_⟩
  have hAll : ∀ n, n ≤ bound → ∀ other, Within edge start n other → found other := by
    intro n
    induction n with
    | zero =>
      intro _ other hOther
      cases hOther
      exact h.started
    | succ n ih =>
      intro hLe other hOther
      cases hOther with
      | start => exact h.started
      | step hNode hEdge =>
        rcases h.expanded _ (ih (Nat.le_of_succ_le hLe) _ hNode) with ⟨_, hQueued⟩ | hClosed | hFar
        · cases hQueued
        · exact hClosed _ hEdge
        · have := hFar n hNode
          omega
  exact hAll bound (Nat.le_refl _) node hWithin

end Layered

/-- A search of everything that can be reached. -/
structure Spreading (edge : Node → Node → Prop) (start : Node) (found : Node → Prop) (queue : List Node) : Prop where
  started : found start
  sound : ∀ node, found node → ReflTransGen edge start node
  queued : ∀ node ∈ queue, found node
  expanded : ∀ node, found node → node ∈ queue ∨ ∀ next, edge node next → found next

namespace Spreading

variable {found found' : Node → Prop} {rest news : List Node} {node : Node}

theorem init (edge : Node → Node → Prop) (start : Node) : Spreading edge start (fun node => node = start) [start] where
  started := rfl
  sound := by
    rintro node rfl
    exact .refl
  queued := fun node hNode => mem_singleton.mp hNode
  expanded := by
    rintro node rfl
    exact .inl (mem_singleton.mpr rfl)

theorem expand (h : Spreading edge start found (node :: rest)) (hFound : ∀ other, found' other ↔ found other ∨ edge node other)
    (hNews : ∀ other ∈ news, edge node other) (hQueued : ∀ other, found' other → ¬found other → other ∈ news) :
    Spreading edge start found' (rest ++ news) where
  started := (hFound _).mpr (.inl h.started)
  sound := by
    intro other hOther
    rcases (hFound other).mp hOther with hOld | hEdge
    · exact h.sound other hOld
    · exact (h.sound node (h.queued node mem_cons_self)).tail hEdge
  queued := by
    intro other hOther
    rcases mem_append.mp hOther with hOld | hNew
    · exact (hFound other).mpr (.inl (h.queued other (mem_cons_of_mem _ hOld)))
    · exact (hFound other).mpr (.inr (hNews other hNew))
  expanded := by
    intro other hOther
    by_cases hOld : found other
    · rcases h.expanded other hOld with hQueued | hClosed
      · rcases mem_cons.mp hQueued with rfl | hLater
        · exact .inr fun next hEdge => (hFound next).mpr (.inr hEdge)
        · exact .inl (mem_append_left _ hLater)
      · exact .inr fun next hEdge => (hFound next).mpr (.inl (hClosed next hEdge))
    · exact .inl (mem_append_right _ (hQueued other hOther hOld))

theorem finished (h : Spreading edge start found []) : found node ↔ ReflTransGen edge start node := by
  refine ⟨h.sound node, fun hReaches => ?_⟩
  induction hReaches with
  | refl => exact h.started
  | tail _ hEdge ih =>
    rcases h.expanded _ ih with hQueued | hClosed
    · cases hQueued
    · exact hClosed _ hEdge

end Spreading
end BreadthFirst
