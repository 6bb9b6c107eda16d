import Mathlib.Data.Set.Defs
import Mathlib.Logic.Relation

/-! Directed graphs without cycles, given by their edge relation, and what one more edge does
to them; then nodes with at most one parent each: climbing from a node to its ancestors, and
bounds on how far that goes. -/
namespace DirectedGraph

open Relation

universe u

variable {Node : Type u} {edge : Node → Node → Prop}

/-- A path of any length. -/
abbrev Reaches (edge : Node → Node → Prop) : Node → Node → Prop := ReflTransGen edge

/-- No node is on a cycle. -/
def Acyclic (edge : Node → Node → Prop) : Prop := ∀ node, ¬TransGen edge node node

/-- The graph with one more edge. -/
def AddEdge (edge : Node → Node → Prop) (source target a b : Node) : Prop :=
  edge a b ∨ (a = source ∧ b = target)

theorem Acyclic.mono {fewer : Node → Node → Prop} (h : Acyclic edge)
    (hSub : ∀ a b, fewer a b → edge a b) : Acyclic fewer :=
  fun node hCycle => h node (TransGen.mono hSub node node hCycle)

theorem acyclic_of_no_edge (h : ∀ a b, ¬edge a b) : Acyclic edge := by
  intro node hCycle
  obtain ⟨next, hFirst, _⟩ := TransGen.head'_iff.mp hCycle
  exact h node next hFirst

variable {source target : Node}

/-- A path of the larger graph either does without the new edge or runs up to
its source and on from its target. -/
theorem path_addEdge {a b : Node} (h : TransGen (AddEdge edge source target) a b) :
    TransGen edge a b ∨ (Reaches edge a source ∧ Reaches edge target b) := by
  induction h with
  | single hStep =>
    rcases hStep with hOld | ⟨rfl, rfl⟩
    · exact Or.inl (.single hOld)
    · exact Or.inr ⟨.refl, .refl⟩
  | tail _ hStep ih =>
    rcases hStep with hOld | ⟨rfl, rfl⟩
    · rcases ih with hPath | ⟨hUp, hOn⟩
      · exact Or.inl (hPath.tail hOld)
      · exact Or.inr ⟨hUp, hOn.tail hOld⟩
    · rcases ih with hPath | ⟨hUp, _⟩
      · exact Or.inr ⟨hPath.to_reflTransGen, .refl⟩
      · exact Or.inr ⟨hUp, .refl⟩

theorem Acyclic.addEdge_iff (h : Acyclic edge) :
    Acyclic (AddEdge edge source target) ↔ ¬Reaches edge target source := by
  have hKeeps : ∀ a b, edge a b → AddEdge edge source target a b := fun _ _ => Or.inl
  constructor
  · intro hAcyclic hPath
    have hBack : Reaches (AddEdge edge source target) target source :=
      ReflTransGen.mono hKeeps target source hPath
    exact hAcyclic source (TransGen.head' (Or.inr ⟨rfl, rfl⟩) hBack)
  · intro hNoPath node hCycle
    rcases path_addEdge hCycle with hOld | ⟨hUp, hOn⟩
    · exact h node hOld
    · exact hNoPath (hOn.trans hUp)

theorem mem_of_closed {closed : Set Node} {start finish : Node} (hStart : start ∈ closed)
    (hClosed : ∀ a b, a ∈ closed → edge a b → b ∈ closed) (h : Reaches edge start finish) : finish ∈ closed := by
  induction h with
  | refl => exact hStart
  | tail _ hStep ih => exact hClosed _ _ ih hStep

end DirectedGraph

namespace Ancestry

open DirectedGraph

universe u

variable {Node : Type u}

/-- The ancestor so many links up, if the chain is that long. -/
def climb (parent : Node → Option Node) : Nat → Node → Option Node
  | 0, node => some node
  | links + 1, node => (parent node).bind (climb parent links)

/-- The links of the parents as a graph. -/
def Link (parent : Node → Option Node) (child above : Node) : Prop := parent child = some above

/-- No chain of parents has more links than the limit. -/
def Bounded (parent : Node → Option Node) (limit : Nat) : Prop :=
  ∀ links node above, climb parent links node = some above → links ≤ limit

variable {parent updated : Node → Option Node} {links : Nat} {node above : Node}

theorem climb_succ : climb parent (links + 1) node = some above ↔
    ∃ next, parent node = some next ∧ climb parent links next = some above :=
  Option.bind_eq_some_iff

variable {first second limit : Nat} {top : Node}

theorem climb_add {middle : Node} (h : climb parent first node = some middle)
    (h' : climb parent second middle = some above) : climb parent (first + second) node = some above := by
  induction first generalizing node with
  | zero =>
    cases h
    rwa [Nat.zero_add]
  | succ first ih =>
    obtain ⟨next, hNext, hRest⟩ := climb_succ.mp h
    rw [Nat.succ_add]
    exact climb_succ.mpr ⟨next, hNext, ih hRest⟩

theorem climb_split (h : climb parent (first + second) node = some above) :
    ∃ middle, climb parent first node = some middle ∧ climb parent second middle = some above := by
  induction first generalizing node with
  | zero => exact ⟨node, rfl, by rwa [Nat.zero_add] at h⟩
  | succ first ih =>
    rw [Nat.succ_add] at h
    obtain ⟨next, hNext, hRest⟩ := climb_succ.mp h
    obtain ⟨middle, hMiddle, hAbove⟩ := ih hRest
    exact ⟨middle, climb_succ.mpr ⟨next, hNext, hMiddle⟩, hAbove⟩

theorem climb_of_reaches (h : Reaches (Link parent) node above) : ∃ links, climb parent links node = some above := by
  induction h using Relation.ReflTransGen.head_induction_on with
  | refl => exact ⟨0, rfl⟩
  | head hLink _ ih =>
    obtain ⟨links, hClimb⟩ := ih
    exact ⟨links + 1, climb_succ.mpr ⟨_, hLink, hClimb⟩⟩

theorem climb_around (hCycle : Relation.TransGen (Link parent) node node) (rounds : Nat) :
    ∃ total, rounds ≤ total ∧ climb parent total node = some node := by
  obtain ⟨next, hLink, hBack⟩ := Relation.TransGen.head'_iff.mp hCycle
  obtain ⟨links, hClimb⟩ := climb_of_reaches hBack
  induction rounds with
  | zero => exact ⟨0, Nat.le_refl 0, rfl⟩
  | succ rounds ih =>
    obtain ⟨total, hLe, hTotal⟩ := ih
    have hOnce : climb parent (links + 1) node = some node := climb_succ.mpr ⟨next, hLink, hClimb⟩
    exact ⟨links + 1 + total, by omega, climb_add hOnce hTotal⟩

/-- With one parent a node, what a cycle leads to leads back to it. -/
theorem returns_of_cycle (hCycle : Relation.TransGen (Link parent) node node) (h : Reaches (Link parent) node above) :
    Relation.TransGen (Link parent) above node := by
  induction h with
  | refl => exact hCycle
  | tail _ hLink ih =>
    obtain ⟨next, hNext, hBack⟩ := Relation.TransGen.head'_iff.mp ih
    obtain rfl := Option.some.inj (hNext.symm.trans hLink)
    exact .trans_right hBack hCycle

theorem Bounded.acyclic (h : Bounded parent limit) : Acyclic (Link parent) := by
  intro node hCycle
  obtain ⟨total, hLe, hTotal⟩ := climb_around hCycle (limit + 1)
  exact absurd (h total node node hTotal) (by omega)

/-- Fewer links make no longer chains. -/
theorem climb_mono (hFewer : ∀ child above, updated child = some above → parent child = some above)
    (h : climb updated links node = some above) : climb parent links node = some above := by
  induction links generalizing node with
  | zero => exact h
  | succ links ih =>
    obtain ⟨next, hNext, hRest⟩ := climb_succ.mp h
    exact climb_succ.mpr ⟨next, hFewer node next hNext, ih hRest⟩

theorem Bounded.mono (h : Bounded parent limit)
    (hFewer : ∀ child above, updated child = some above → parent child = some above) : Bounded updated limit :=
  fun links node above hClimb => h links node above (climb_mono hFewer hClimb)

/-- The links of one node may have been replaced; those of the others were kept
or lost. -/
structure Moved (parent updated : Node → Option Node) (moved : Node) (fits : Node → Prop) : Prop where
  others : ∀ child above, child ≠ moved → updated child = some above → parent child = some above
  moves : ∀ above, updated moved = some above → parent moved = some above ∨ fits above

theorem climb_avoiding {moved : Node} {fits : Node → Prop} (hMoved : Moved parent updated moved fits)
    (hAvoids : ∀ links, climb parent links node ≠ some moved) (h : climb updated links node = some above) :
    climb parent links node = some above := by
  induction links generalizing node with
  | zero => exact h
  | succ links ih =>
    obtain ⟨next, hNext, hRest⟩ := climb_succ.mp h
    have hOld : parent node = some next :=
      hMoved.others node next (fun hIs => hAvoids 0 (congrArg some hIs)) hNext
    have hNextAvoids : ∀ links, climb parent links next ≠ some moved := fun links hIs =>
      hAvoids (links + 1) (climb_succ.mpr ⟨next, hOld, hIs⟩)
    exact climb_succ.mpr ⟨next, hOld, ih hNextAvoids hRest⟩

/-- A chain after a move is an old one, or leads up to the moved node, over its
new link, and on along an old chain. -/
theorem climb_moved {moved : Node} {fits : Node → Prop} (hMoved : Moved parent updated moved fits)
    (hAvoids : ∀ above, fits above → ∀ links, climb parent links above ≠ some moved)
    (h : climb updated links node = some above) :
    climb parent links node = some above ∨ ∃ below target beyond, links = below + 1 + beyond ∧ fits target ∧
      climb parent below node = some moved ∧ climb parent beyond target = some above := by
  induction links generalizing node with
  | zero => exact .inl h
  | succ links ih =>
    obtain ⟨next, hNext, hRest⟩ := climb_succ.mp h
    have hThrough : parent node = some next → climb parent (links + 1) node = some above ∨
        ∃ below target beyond, links + 1 = below + 1 + beyond ∧ fits target ∧
          climb parent below node = some moved ∧ climb parent beyond target = some above := by
      intro hOld
      rcases ih hRest with hKept | ⟨below, target, beyond, hLinks, hFits, hBelow, hBeyond⟩
      · exact .inl (climb_succ.mpr ⟨next, hOld, hKept⟩)
      · exact .inr ⟨below + 1, target, beyond, by omega, hFits, climb_succ.mpr ⟨next, hOld, hBelow⟩, hBeyond⟩
    by_cases hIs : node = moved
    · subst hIs
      rcases hMoved.moves next hNext with hOld | hFits
      · exact hThrough hOld
      · exact .inr ⟨0, next, links, by omega, hFits, rfl, climb_avoiding hMoved (hAvoids next hFits) hRest⟩
    · exact hThrough (hMoved.others node next hIs hNext)

theorem Bounded.moved {moved : Node} {fits : Node → Prop} (h : Bounded parent limit)
    (hMoved : Moved parent updated moved fits)
    (hAvoids : ∀ above, fits above → ∀ links, climb parent links above ≠ some moved)
    (hFits : ∀ target, fits target → ∀ below beyond node above, climb parent below node = some moved →
      climb parent beyond target = some above → below + 1 + beyond ≤ limit) : Bounded updated limit := by
  intro links node above hClimb
  rcases climb_moved hMoved hAvoids hClimb with hKept | ⟨below, target, beyond, rfl, hTarget, hBelow, hBeyond⟩
  · exact h links node above hKept
  · exact hFits target hTarget below beyond node above hBelow hBeyond

theorem acyclic_moved {moved : Node} {fits : Node → Prop} (h : Acyclic (Link parent))
    (hMoved : Moved parent updated moved fits)
    (hAvoids : ∀ above, fits above → ∀ links, climb parent links above ≠ some moved) : Acyclic (Link updated) := by
  have hEdges : ∀ target, updated moved = some target →
      ∀ child above, Link updated child above → AddEdge (Link parent) moved target child above := by
    intro target hTarget child above hLink
    by_cases hIs : child = moved
    · subst hIs
      exact .inr ⟨rfl, Option.some.inj (hLink.symm.trans hTarget)⟩
    · exact .inl (hMoved.others child above hIs hLink)
  cases hTarget : updated moved with
  | none =>
    refine h.mono fun child above hLink => hMoved.others child above (fun hIs => ?_) hLink
    subst hIs
    cases hTarget.symm.trans hLink
  | some target =>
    rcases hMoved.moves target hTarget with hOld | hFits
    · refine h.mono fun child above hLink => ?_
      rcases hEdges target hTarget child above hLink with hKept | ⟨rfl, rfl⟩
      · exact hKept
      · exact hOld
    · refine (h.addEdge_iff.mpr fun hBack => ?_).mono (hEdges target hTarget)
      obtain ⟨links, hClimb⟩ := climb_of_reaches hBack
      exact hAvoids target hFits links hClimb

/-- Links were kept, and others added to nodes that had none, each on the way up
from the first node. -/
structure Extended (parent updated : Node → Option Node) (first : Node) : Prop where
  kept : ∀ child above, parent child = some above → updated child = some above
  added : ∀ child above, updated child = some above →
    parent child = some above ∨ ∃ links, climb updated links first = some child

theorem climb_le_top {first : Node} {total : Nat} (hTop : climb parent links first = some top)
    (hEnd : parent top = none) (h : climb parent total first = some node) : total ≤ links := by
  refine Nat.le_of_not_lt fun hBeyond => ?_
  obtain ⟨more, rfl⟩ : ∃ more, total = links + (more + 1) := ⟨total - links - 1, by omega⟩
  obtain ⟨middle, hMiddle, hRest⟩ := climb_split h
  obtain rfl := Option.some.inj (hTop.symm.trans hMiddle)
  obtain ⟨next, hNext, _⟩ := climb_succ.mp hRest
  cases hEnd.symm.trans hNext

theorem acyclic_extended {first : Node} (h : Acyclic (Link parent)) (hExtended : Extended parent updated first)
    (hTop : climb updated links first = some top) (hEnd : updated top = none) : Acyclic (Link updated) := by
  intro node hCycle
  have hOff : ¬∃ steps, climb updated steps first = some node := by
    rintro ⟨steps, hOn⟩
    obtain ⟨total, hLe, hTotal⟩ := climb_around hCycle (links + 1)
    have hBound := climb_le_top hTop hEnd (climb_add hOn hTotal)
    omega
  -- a node that leads to one off the way is off it, so its links are old ones
  have hOld : ∀ {child}, Relation.TransGen (Link updated) child node → Relation.TransGen (Link parent) child node := by
    intro child hReaches
    have hLinkOld : ∀ {child above}, Link updated child above → Reaches (Link updated) child node →
        Link parent child above := by
      intro child above hLink hReaches
      refine (hExtended.added child above hLink).resolve_right fun ⟨steps, hOn⟩ => hOff ?_
      obtain ⟨more, hMore⟩ := climb_of_reaches hReaches
      exact ⟨steps + more, climb_add hOn hMore⟩
    induction hReaches using Relation.TransGen.head_induction_on with
    | single hLink => exact .single (hLinkOld hLink (.single hLink))
    | head hLink hRest ih => exact .head (hLinkOld hLink (.head hLink hRest.to_reflTransGen)) ih
  exact h node (hOld hCycle)

theorem climb_extended (hKept : ∀ child above, parent child = some above → updated child = some above)
    (h : climb updated links node = some above) :
    climb parent links node = some above ∨ ∃ below child target beyond, links = below + 1 + beyond ∧
      parent child = none ∧ updated child = some target ∧ climb parent below node = some child ∧
        climb updated beyond target = some above := by
  induction links generalizing node with
  | zero => exact .inl h
  | succ links ih =>
    obtain ⟨next, hNext, hRest⟩ := climb_succ.mp h
    cases hParent : parent node with
    | none => exact .inr ⟨0, node, next, links, by omega, hParent, hNext, rfl, hRest⟩
    | some old =>
      obtain rfl := Option.some.inj ((hKept node old hParent).symm.trans hNext)
      rcases ih hRest with hOld | ⟨below, child, target, beyond, hLinks, hChild, hTarget, hBelow, hBeyond⟩
      · exact .inl (climb_succ.mpr ⟨old, hParent, hOld⟩)
      · exact .inr ⟨below + 1, child, target, beyond, by omega, hChild, hTarget,
          climb_succ.mpr ⟨old, hParent, hBelow⟩, hBeyond⟩

theorem Bounded.extended (h : Bounded parent limit)
    (hKept : ∀ child above, parent child = some above → updated child = some above)
    (hFits : ∀ child target, parent child = none → updated child = some target → ∀ below beyond node above,
      climb parent below node = some child → climb updated beyond target = some above → below + 1 + beyond ≤ limit) :
    Bounded updated limit := by
  intro links node above hClimb
  rcases climb_extended hKept hClimb with hOld | ⟨below, child, target, beyond, rfl, hChild, hTarget, hBelow, hBeyond⟩
  · exact h links node above hOld
  · exact hFits child target hChild hTarget below beyond node above hBelow hBeyond

end Ancestry
