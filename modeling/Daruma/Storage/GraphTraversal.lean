import Daruma.Library.BreadthFirst
import Daruma.Storage.WorkspaceGraphRepo
import Mathlib.Combinatorics.SimpleGraph.Metric
import Mathlib.Data.String.Basic

/-! What the searches of the workspace graph return: with a limit above its size, exactly
the nodes within a distance, or those that an impact reaches; with any limit, a part of
them that its edges do not leave. -/
namespace Daruma

open List
namespace WorkspaceGraphRepo

open BreadthFirst

variable {Entry : Type} {tables : GraphTables} {order : RowOrder} {limit depth : UInt32} {start current : String}
  {root : GraphNode}

def Stored (tables : GraphTables) (id : String) : Prop := (getNode tables id).isSome = true

/-- An edge joins the two, in either direction, and the second is a row. -/
def Joined (tables : GraphTables) (id other : String) : Prop :=
  Stored tables other ∧ ∃ edge ∈ tables.edges,
    (edge.fromId = id ∧ edge.toId = other) ∨ (edge.fromId = other ∧ edge.toId = id)

def undirected (tables : GraphTables) : SimpleGraph String :=
  SimpleGraph.fromRel fun id other => Stored tables id ∧ Stored tables other ∧
    ∃ edge ∈ tables.edges, edge.fromId = id ∧ edge.toId = other

/-- An edge of an impact kind leads to a row. -/
def Impacts (tables : GraphTables) (id other : String) : Prop :=
  Stored tables other ∧ ∃ edge ∈ tables.edges, edge.kind ∈ impactKinds ∧ edge.fromId = id ∧ edge.toId = other

variable {id other : String} {node : GraphNode} {edge : GraphEdge} {item : GraphContextItem}

theorem undirected_adj :
    (undirected tables).Adj id other ↔ id ≠ other ∧ Stored tables id ∧ Joined tables id other := by
  unfold undirected Joined
  rw [SimpleGraph.fromRel_adj]
  constructor
  · rintro ⟨hNe, ⟨hId, hOther, edge, hEdge, hFrom, hTo⟩ | ⟨hOther, hId, edge, hEdge, hFrom, hTo⟩⟩
    · exact ⟨hNe, hId, hOther, edge, hEdge, .inl ⟨hFrom, hTo⟩⟩
    · exact ⟨hNe, hId, hOther, edge, hEdge, .inr ⟨hFrom, hTo⟩⟩
  · rintro ⟨hNe, hId, hOther, edge, hEdge, ⟨hFrom, hTo⟩ | ⟨hFrom, hTo⟩⟩
    · exact ⟨hNe, .inl ⟨hId, hOther, edge, hEdge, hFrom, hTo⟩⟩
    · exact ⟨hNe, .inr ⟨hOther, hId, edge, hEdge, hFrom, hTo⟩⟩

variable {n : Nat}

theorem stored_of_within (hStart : Stored tables start) {id : String} (h : Within (Joined tables) start n id) :
    Stored tables id := by
  cases h with
  | start => exact hStart
  | step _ hEdge => exact hEdge.1

theorem within_of_walk (walk : (undirected tables).Walk id other)
    (h : Within (Joined tables) start n id) : Within (Joined tables) start (n + walk.length) other := by
  induction walk generalizing n with
  | nil => exact h
  | cons hAdj rest ih =>
    have hNext := ih (.step h (undirected_adj.mp hAdj).2.2)
    rw [SimpleGraph.Walk.length_cons, Nat.add_comm rest.length 1, ← Nat.add_assoc]
    exact hNext

theorem within_iff (hStart : Stored tables start) {id : String} :
    Within (Joined tables) start n id ↔ (undirected tables).edist start id ≤ n := by
  constructor
  · intro h
    induction h with
    | start => simp
    | @step n node next hNode hEdge ih =>
      have hOne : (undirected tables).edist node next ≤ 1 := by
        by_cases hSame : node = next
        · subst hSame
          simp
        · exact (SimpleGraph.edist_eq_one_iff_adj.mpr
            (undirected_adj.mpr ⟨hSame, stored_of_within hStart hNode, hEdge⟩)).le
      calc (undirected tables).edist start next
          ≤ (undirected tables).edist start node + (undirected tables).edist node next :=
            SimpleGraph.edist_triangle
        _ ≤ n + 1 := add_le_add ih hOne
        _ = ((n + 1 : Nat) : ℕ∞) := by push_cast; rfl
  · intro h
    have hFinite : (undirected tables).edist start id ≠ ⊤ := ne_top_of_le_ne_top (ENat.natCast_ne_top n) h
    obtain ⟨walk, hWalk⟩ := SimpleGraph.exists_walk_of_edist_ne_top hFinite
    rw [← hWalk] at h
    have hLength : walk.length ≤ n := by exact_mod_cast h
    have hWithin := within_of_walk walk (.start 0)
    rw [Nat.zero_add] at hWithin
    exact hWithin.mono hLength

structure Row (tables : GraphTables) (edgeTo : String → String → Prop) (current : String) (row : GraphEdge × GraphNode) :
    Prop where
  edge : row.1 ∈ tables.edges
  node : getNode tables row.2.id = some row.2
  ends : (row.1.fromId = current ∧ row.1.toId = row.2.id) ∨ (row.1.fromId = row.2.id ∧ row.1.toId = current)
  leads : edgeTo current row.2.id

theorem getNode_eq_some : getNode tables id = some node ↔ node ∈ tables.nodes ∧ node.id = id :=
  KeyedTable.find?_eq_some_iff

theorem contextItem_eq_some (hAt : edge.fromId = current ∨ edge.toId = current)
    (h : contextItem tables current edge = some item) :
    item.edge = edge ∧ getNode tables item.node.id = some item.node ∧
      ((edge.fromId = current ∧ edge.toId = item.node.id) ∨ (edge.fromId = item.node.id ∧ edge.toId = current)) := by
  unfold contextItem at h
  obtain ⟨node, hNode, rfl⟩ := Option.map_eq_some_iff.mp h
  have hId := (getNode_eq_some.mp hNode).2
  refine ⟨rfl, by dsimp only; rwa [hId], ?_⟩
  dsimp only
  split at hId
  · rename_i hFrom
    exact .inl ⟨hFrom, hId.symm⟩
  · rename_i hFrom
    exact .inr ⟨hId.symm, hAt.resolve_left hFrom⟩

theorem mem_context (h : item ∈ context tables order current limit) :
    Row tables (Joined tables) current (item.edge, item.node) := by
  have hListed := (order.items_perm _).mem_iff.mp (mem_of_mem_take h)
  obtain ⟨edge, hEdge, hItem⟩ := mem_filterMap.mp hListed
  rw [mem_filter, Bool.or_eq_true, decide_eq_true_eq, decide_eq_true_eq] at hEdge
  obtain ⟨rfl, hNode, hEnds⟩ := contextItem_eq_some hEdge.2 hItem
  refine ⟨hEdge.1, hNode, hEnds, ?_, item.edge, hEdge.1, hEnds⟩
  unfold Stored
  rw [hNode]
  rfl

theorem context_complete (hEdges : tables.edges.rows.length < limit.toNat) {other : String}
    (h : Joined tables current other) : ∃ item ∈ context tables order current limit, item.node.id = other := by
  obtain ⟨hStored, edge, hEdge, hEnds⟩ := h
  obtain ⟨node, hNode⟩ := Option.isSome_iff_exists.mp hStored
  have hId := (getNode_eq_some.mp hNode).2
  have hOther : (if edge.fromId = current then edge.toId else edge.fromId) = other := by
    rcases hEnds with ⟨hFrom, hTo⟩ | ⟨hFrom, hTo⟩
    · rw [if_pos hFrom, hTo]
    · split
      · rename_i hSelf
        rw [hTo, ← hSelf, hFrom]
      · exact hFrom
  have hItem : contextItem tables current edge =
      some ⟨node, edge, if edge.fromId = current then .outgoing else .incoming⟩ := by
    unfold contextItem
    rw [hOther, hNode]
    rfl
  refine ⟨⟨node, edge, if edge.fromId = current then .outgoing else .incoming⟩, ?_, hId⟩
  unfold context
  have hShort : (order.items ((tables.edges.rows.filter fun edge => edge.fromId = current || edge.toId = current).filterMap
      (contextItem tables current))).length ≤ limit.toNat := by
    rw [(order.items_perm _).length_eq]
    exact ((length_filterMap_le _ _).trans (length_filter_le _ _)).trans (Nat.le_of_lt hEdges)
  rw [take_of_length_le hShort]
  refine (order.items_perm _).mem_iff.mpr (mem_filterMap.mpr ⟨edge, ?_, hItem⟩)
  rw [mem_filter, Bool.or_eq_true, decide_eq_true_eq, decide_eq_true_eq]
  exact ⟨hEdge, hEnds.imp And.left And.right⟩

theorem mem_impactRows {row : GraphEdge × GraphNode} (h : row ∈ impactRows tables order current) :
    Row tables (Impacts tables) current row := by
  obtain ⟨edge, hListed, hRow⟩ := mem_filterMap.mp h
  have hEdge := (order.edges_perm _).mem_iff.mp hListed
  rw [mem_filter, Bool.and_eq_true, decide_eq_true_eq, decide_eq_true_eq] at hEdge
  obtain ⟨node, hNode, rfl⟩ := Option.map_eq_some_iff.mp hRow
  have hId := (getNode_eq_some.mp hNode).2
  refine ⟨hEdge.1, by dsimp only; rwa [hId], .inl ⟨hEdge.2.1, hId.symm⟩, ?_, edge, hEdge.1, hEdge.2.2, hEdge.2.1, hId.symm⟩
  unfold Stored
  dsimp only
  rw [hId, hNode]
  rfl

theorem impactRows_complete {other : String} (h : Impacts tables current other) :
    ∃ row ∈ impactRows tables order current, row.2.id = other := by
  obtain ⟨hStored, edge, hEdge, hKind, hFrom, hTo⟩ := h
  obtain ⟨node, hNode⟩ := Option.isSome_iff_exists.mp hStored
  refine ⟨(edge, node), mem_filterMap.mpr ⟨edge, (order.edges_perm _).mem_iff.mpr ?_, ?_⟩, (getNode_eq_some.mp hNode).2⟩
  · rw [mem_filter, Bool.and_eq_true, decide_eq_true_eq, decide_eq_true_eq]
    exact ⟨hEdge, hFrom, hKind⟩
  · rw [hTo, hNode]
    rfl

/-- A search on its way: the nodes are the rows of what was seen, each once, and the
edges stay among them. -/
structure Sound (tables : GraphTables) (limit : UInt32) (reach : String → Prop) (search : Search Entry) : Prop where
  stored : ∀ node ∈ search.nodes, getNode tables node.id = some node
  nodup : (search.nodes.map GraphNode.id).Nodup
  seen : ∀ id, id ∈ search.seen ↔ id ∈ search.nodes.map GraphNode.id
  reached : ∀ id ∈ search.seen, reach id
  closed : ∀ edge ∈ search.edges, edge ∈ tables.edges ∧ edge.fromId ∈ search.seen ∧ edge.toId ∈ search.seen
  few : search.nodes.length ≤ max limit.toNat 1

variable {reach : String → Prop} {search : Search Entry} {keep : List GraphEdge → GraphEdge → List GraphEdge}
  {child : String → Entry} {rows : List (GraphEdge × GraphNode)}

variable (h : Sound tables limit reach search)

include h in
theorem Sound.length_le : search.nodes.length ≤ tables.nodes.rows.length := by
  have hSub : search.nodes ⊆ tables.nodes.rows := fun node hNode => (getNode_eq_some.mp (h.stored node hNode)).1
  exact (subperm_of_subset (List.Nodup.of_map _ h.nodup) hSub).length_le

include h in
theorem Sound.full_iff : full limit search.nodes = true ↔ limit.toNat ≤ search.nodes.length := by
  have hLimit := limit.toNat_lt
  have hFew := h.few
  have hWord : (UInt32.ofNat search.nodes.length).toNat = search.nodes.length := by
    rw [UInt32.toNat_ofNat']
    apply Nat.mod_eq_of_lt
    omega
  unfold full
  rw [decide_eq_true_eq, UInt32.le_iff_toNat_le, hWord]

include h in
theorem Sound.pop (rest : List Entry) : Sound tables limit reach { search with frontier := rest } :=
  ⟨h.stored, h.nodup, h.seen, h.reached, h.closed, h.few⟩

structure Adds (child : String → Entry) (edgeTo : String → Prop) (search after : Search Entry) (news : List String) : Prop where
  frontier : after.frontier = search.frontier ++ news.map child
  nodes : after.nodes.length = search.nodes.length + news.length
  seen : ∀ id, id ∈ after.seen ↔ id ∈ search.seen ∨ id ∈ news
  fresh : ∀ id ∈ news, id ∉ search.seen ∧ edgeTo id

include h in
theorem Sound.known {edgeTo : String → String → Prop} (hKeep : ∀ edges edge other, other ∈ keep edges edge → other ∈ edges ∨ other = edge)
    (hCurrent : current ∈ search.seen) (hRow : Row tables edgeTo current (edge, node)) (hSeen : node.id ∈ search.seen) :
    Sound tables limit reach { search with edges := keep search.edges edge } := by
  refine ⟨h.stored, h.nodup, h.seen, h.reached, fun other hOther => ?_, h.few⟩
  rcases hKeep _ _ other hOther with hOld | rfl
  · exact h.closed other hOld
  · rcases hRow.ends with ⟨hFrom, hTo⟩ | ⟨hFrom, hTo⟩
    · exact ⟨hRow.edge, by rwa [hFrom], by rwa [hTo]⟩
    · exact ⟨hRow.edge, by rwa [hFrom], by rwa [hTo]⟩

include h in
theorem Sound.queue {edgeTo : String → String → Prop} (hKeep : ∀ edges edge other, other ∈ keep edges edge → other ∈ edges ∨ other = edge)
    (hCurrent : current ∈ search.seen) (hRow : Row tables edgeTo current (edge, node)) (hReach : reach node.id)
    (hNew : node.id ∉ search.seen) (hRoom : search.nodes.length < limit.toNat) (entry : Entry) :
    Sound tables limit reach ⟨node.id :: search.seen, search.frontier ++ [entry], search.nodes ++ [node],
      keep search.edges edge⟩ := by
  have hNode : getNode tables node.id = some node := hRow.node
  refine ⟨?_, ?_, ?_, ?_, fun other hOther => ?_, ?_⟩
  · intro other hOther
    rcases mem_append.mp hOther with hOld | hIs
    · exact h.stored other hOld
    · cases mem_singleton.mp hIs
      exact hNode
  · dsimp only
    rw [map_append, nodup_append]
    refine ⟨h.nodup, nodup_singleton _, fun id hId other hOther hSame => hNew ?_⟩
    rw [map_singleton, mem_singleton] at hOther
    rw [← hOther, ← hSame]
    exact (h.seen id).mpr hId
  · intro id
    dsimp only
    rw [map_append, mem_append, mem_cons, ← h.seen id, map_singleton, mem_singleton, or_comm]
  · intro id hId
    rcases mem_cons.mp hId with rfl | hOld
    · exact hReach
    · exact h.reached id hOld
  · rcases hKeep _ _ other hOther with hOld | rfl
    · obtain ⟨hEdge, hFrom, hTo⟩ := h.closed other hOld
      exact ⟨hEdge, mem_cons_of_mem _ hFrom, mem_cons_of_mem _ hTo⟩
    · rcases hRow.ends with ⟨hFrom, hTo⟩ | ⟨hFrom, hTo⟩
      · exact ⟨hRow.edge, by rw [hFrom]; exact mem_cons_of_mem _ hCurrent, by rw [hTo]; exact mem_cons_self⟩
      · exact ⟨hRow.edge, by rw [hFrom]; exact mem_cons_self, by rw [hTo]; exact mem_cons_of_mem _ hCurrent⟩
  · dsimp only
    rw [length_append, length_singleton]
    omega

theorem Sound.visit {edgeTo : String → String → Prop} (h : Sound tables limit reach search)
    (hRoom : search.nodes.length < limit.toNat)
    (hKeep : ∀ edges edge other, other ∈ keep edges edge → other ∈ edges ∨ other = edge) (hCurrent : current ∈ search.seen)
    (hRows : ∀ row ∈ rows, Row tables edgeTo current row) (hReach : ∀ row ∈ rows, reach row.2.id) :
    Sound tables limit reach (visit limit keep child search rows) ∧
      (∃ news, Adds child (edgeTo current) search (visit limit keep child search rows) news) ∧
      (tables.nodes.rows.length < limit.toNat → ∀ row ∈ rows, row.2.id ∈ (visit limit keep child search rows).seen) := by
  induction rows generalizing search with
  | nil => exact ⟨h, ⟨[], (append_nil _).symm, rfl, by simp [WorkspaceGraphRepo.visit], by simp⟩, by simp⟩
  | cons row rest ih =>
    obtain ⟨edge, node⟩ := row
    obtain ⟨hRow, hRest⟩ := forall_mem_cons.mp hRows
    obtain ⟨hReached, hReachRest⟩ := forall_mem_cons.mp hReach
    rw [WorkspaceGraphRepo.visit]
    dsimp only
    by_cases hSeen : node.id ∈ search.seen
    · rw [if_pos hSeen]
      obtain ⟨hSound, ⟨news, hAdds⟩, hAll⟩ := ih (h.known hKeep hCurrent hRow hSeen) hRoom hCurrent hRest hReachRest
      refine ⟨hSound, ⟨news, hAdds.frontier, hAdds.nodes, hAdds.seen, hAdds.fresh⟩, fun hLimit => ?_⟩
      exact forall_mem_cons.mpr ⟨(hAdds.seen _).mpr (.inl hSeen), hAll hLimit⟩
    · rw [if_neg hSeen]
      have hQueued := h.queue hKeep hCurrent hRow hReached hSeen hRoom (child node.id)
      split
      · -- the limit is reached, and the round is left
        rename_i hFull
        refine ⟨hQueued, ⟨[node.id], rfl, by simp, ?_, ?_⟩, fun hLimit => ?_⟩
        · intro id
          rw [mem_cons, mem_singleton, or_comm]
        · intro id hId
          cases mem_singleton.mp hId
          exact ⟨hSeen, hRow.leads⟩
        · have hLength := hQueued.length_le
          have hReachedLimit := hQueued.full_iff.mp hFull
          omega
      · rename_i hNotFull
        have hMore : (search.nodes ++ [node]).length < limit.toNat :=
          Nat.lt_of_not_le (mt hQueued.full_iff.mpr hNotFull)
        obtain ⟨hSound, ⟨news, hAdds⟩, hAll⟩ := ih hQueued hMore (mem_cons_of_mem _ hCurrent) hRest hReachRest
        refine ⟨hSound, ⟨node.id :: news, ?_, ?_, ?_, ?_⟩, fun hLimit => ?_⟩
        · rw [hAdds.frontier, map_cons, append_assoc]
          rfl
        · rw [hAdds.nodes, length_append, length_singleton, length_cons]
          omega
        · intro id
          rw [hAdds.seen id, mem_cons, mem_cons]
          tauto
        · rw [forall_mem_cons]
          refine ⟨⟨hSeen, hRow.leads⟩, fun id hId => ?_⟩
          obtain ⟨hFresh, hLeads⟩ := hAdds.fresh id hId
          exact ⟨fun hOld => hFresh (mem_cons_of_mem _ hOld), hLeads⟩
        · exact forall_mem_cons.mpr ⟨(hAdds.seen _).mpr (.inl mem_cons_self), hAll hLimit⟩

theorem loop_ends {turn : Search Entry → Search Entry} {inv : Search Entry → Prop} {left : Search Entry → Nat}
    (hTurn : ∀ search, search.frontier ≠ [] → inv search → inv (turn search) ∧ left (turn search) < left search)
    {search : Search Entry} (h : inv search) :
    ∃ final, (∀ fuel, left search ≤ fuel → loop turn fuel search = some final) ∧ inv final ∧ final.frontier = [] := by
  by_cases hDone : search.frontier = []
  · refine ⟨search, fun fuel _ => ?_, h, hDone⟩
    cases fuel <;> exact if_pos (isEmpty_iff.mpr hDone)
  · obtain ⟨hKept, hLess⟩ := hTurn search hDone h
    obtain ⟨final, hRuns, hFinal, hEmpty⟩ := loop_ends hTurn hKept
    refine ⟨final, fun fuel hFuel => ?_, hFinal, hEmpty⟩
    cases fuel with
    | zero => omega
    | succ fuel =>
      have hMore : loop turn (fuel + 1) search = loop turn fuel (turn search) :=
        if_neg (mt List.isEmpty_iff.mp hDone)
      rw [hMore]
      exact hRuns fuel (by omega)
termination_by left search

def turnsLeft (tables : GraphTables) (search : Search Entry) : Nat :=
  search.frontier.length + (tables.nodes.rows.length - search.nodes.length)

theorem turnsLeft_pop {entry : Entry} {rest : List Entry} (h : search.frontier = entry :: rest) :
    turnsLeft tables { search with frontier := rest } < turnsLeft tables search := by
  unfold turnsLeft
  rw [h, length_cons]
  dsimp only
  omega

theorem turnsLeft_adds {after : Search Entry} {news : List String} {edgeTo : String → Prop}
    (hAdds : Adds child edgeTo search after news) (hAfter : Sound tables limit reach after) :
    turnsLeft tables after = turnsLeft tables search := by
  have hWithin := hAfter.length_le
  have hNodes := hAdds.nodes
  unfold turnsLeft
  rw [hAdds.frontier, length_append, length_map, hNodes]
  omega

theorem sound_begin (hRoot : getNode tables start = some root) (hReach : reach start) (entry : Entry) :
    Sound tables limit reach (begin tables start entry) := by
  have hId := (getNode_eq_some.mp hRoot).2
  have hBegin : begin tables start entry = ⟨[start], [entry], [root], []⟩ := by
    unfold begin
    rw [hRoot]
    rfl
  rw [hBegin]
  refine ⟨?_, nodup_singleton _, ?_, ?_, fun edge hEdge => absurd hEdge not_mem_nil, Nat.le_max_right _ _⟩
  · intro node hNode
    cases mem_singleton.mp hNode
    rwa [hId]
  · intro id
    rw [map_singleton, hId]
  · intro id hId
    cases mem_singleton.mp hId
    exact hReach

theorem turnsLeft_begin (hRoot : getNode tables start = some root) (entry : Entry) :
    turnsLeft tables (begin tables start entry) ≤ tables.nodes.rows.length := by
  have hStored : 0 < tables.nodes.rows.length := length_pos_of_mem (getNode_eq_some.mp hRoot).1
  unfold turnsLeft begin
  rw [hRoot]
  dsimp only [Option.toList, length_singleton]
  omega

/-- Above the number of nodes and of edges. -/
def Wide (tables : GraphTables) (limit : UInt32) : Prop :=
  tables.nodes.rows.length < limit.toNat ∧ tables.edges.rows.length < limit.toNat

/-- What the loop of `related` keeps. -/
structure RelatedKept (tables : GraphTables) (start : String) (depth limit : UInt32) (search : Search (String × Nat)) : Prop where
  sound : Sound tables limit (Within (Joined tables) start depth.toNat) search
  queued : ∀ entry ∈ search.frontier, entry.1 ∈ search.seen ∧ Within (Joined tables) start entry.2 entry.1
  layered : Wide tables limit → Layered (Joined tables) start depth.toNat (· ∈ search.seen) search.frontier

theorem mem_keepOnce (edges : List GraphEdge) (edge other : GraphEdge) (h : other ∈ keepOnce edges edge) :
    other ∈ edges ∨ other = edge := by
  unfold keepOnce at h
  split at h
  · exact .inl h
  · rcases mem_append.mp h with hOld | hIs
    · exact .inl hOld
    · exact .inr (mem_singleton.mp hIs)

theorem mem_keepAll (edges : List GraphEdge) (edge other : GraphEdge) (h : other ∈ keepAll edges edge) :
    other ∈ edges ∨ other = edge := by
  rcases mem_append.mp h with hOld | hIs
  · exact .inl hOld
  · exact .inr (mem_singleton.mp hIs)

theorem RelatedKept.turn {search : Search (String × Nat)} (h : RelatedKept tables start depth limit search)
    (hMore : search.frontier ≠ []) :
    RelatedKept tables start depth limit (relatedRound tables order depth limit search) ∧
      turnsLeft tables (relatedRound tables order depth limit search) < turnsLeft tables search := by
  unfold relatedRound
  split
  · exact absurd ‹_› hMore
  · rename_i current currentDepth rest hFrontier
    have hPopped := h.sound.pop rest
    have hHere := h.queued (current, currentDepth) (by rw [hFrontier]; exact mem_cons_self)
    have hRest : ∀ entry ∈ rest, entry.1 ∈ search.seen ∧ Within (Joined tables) start entry.2 entry.1 := fun entry hEntry =>
      h.queued entry (by rw [hFrontier]; exact mem_cons_of_mem _ hEntry)
    have hPop := @turnsLeft_pop _ tables search _ _ hFrontier
    dsimp only
    split
    · rename_i hSkips
      refine ⟨⟨hPopped, hRest, fun hWide => ?_⟩, hPop⟩
      have hLayered := h.layered hWide
      rw [hFrontier] at hLayered
      refine hLayered.skip ?_
      rcases (Bool.or_eq_true _ _).mp hSkips with hFar | hFull
      · exact of_decide_eq_true hFar
      · have hLength := h.sound.length_le
        have hReached := h.sound.full_iff.mp hFull
        have hNodes := hWide.1
        omega
    · rename_i hGoes
      rw [Bool.or_eq_true, not_or, decide_eq_true_eq, Nat.not_le] at hGoes
      obtain ⟨hClose, hNotFull⟩ := hGoes
      have hRoom : search.nodes.length < limit.toNat := Nat.lt_of_not_le (mt hPopped.full_iff.mpr hNotFull)
      have hRows : ∀ row ∈ (context tables order current limit).map fun item => (item.edge, item.node),
          Row tables (Joined tables) current row := by
        intro row hRow
        obtain ⟨item, hItem, rfl⟩ := mem_map.mp hRow
        exact mem_context hItem
      obtain ⟨hSound, ⟨news, hAdds⟩, hAll⟩ := hPopped.visit hRoom mem_keepOnce hHere.1 hRows fun row hRow =>
        (Within.step hHere.2 (hRows row hRow).leads).mono hClose
      refine ⟨⟨hSound, fun entry hEntry => ?_, fun hWide => ?_⟩, ?_⟩
      · rw [hAdds.frontier] at hEntry
        rcases mem_append.mp hEntry with hOld | hNew
        · obtain ⟨hSeen, hWithin⟩ := hRest entry hOld
          exact ⟨(hAdds.seen _).mpr (.inl hSeen), hWithin⟩
        · obtain ⟨id, hId, rfl⟩ := mem_map.mp hNew
          exact ⟨(hAdds.seen _).mpr (.inr hId), .step hHere.2 (hAdds.fresh id hId).2⟩
      · have hLayered := h.layered hWide
        rw [hFrontier] at hLayered
        rw [hAdds.frontier]
        refine hLayered.expand hClose (fun other => ?_) ?_ fun other hSeen hOld => ?_
        · constructor
          · exact fun hSeen => ((hAdds.seen other).mp hSeen).imp id fun hNew => (hAdds.fresh other hNew).2
          · rintro (hOld | hEdge)
            · exact (hAdds.seen other).mpr (.inl hOld)
            · obtain ⟨item, hItem, rfl⟩ := @context_complete tables order limit current hWide.2 other hEdge
              exact hAll hWide.1 _ (mem_map.mpr ⟨item, hItem, rfl⟩)
        · intro entry hEntry
          obtain ⟨id, hId, rfl⟩ := mem_map.mp hEntry
          exact ⟨rfl, (hAdds.fresh id hId).2, (hAdds.fresh id hId).1⟩
        · exact mem_map.mpr ⟨other, ((hAdds.seen other).mp hSeen).resolve_left hOld, rfl⟩
      · rw [turnsLeft_adds hAdds hSound]
        exact hPop

/-- What the loop of `impact` keeps. -/
structure ImpactKept (tables : GraphTables) (start : String) (limit : UInt32) (search : Search String) : Prop where
  sound : Sound tables limit (Relation.ReflTransGen (Impacts tables) start) search
  queued : ∀ id ∈ search.frontier, id ∈ search.seen
  spreading : Wide tables limit → Spreading (Impacts tables) start (· ∈ search.seen) search.frontier

theorem ImpactKept.turn {search : Search String} (h : ImpactKept tables start limit search) (hMore : search.frontier ≠ []) :
    ImpactKept tables start limit (impactRound tables order limit search) ∧
      turnsLeft tables (impactRound tables order limit search) < turnsLeft tables search := by
  unfold impactRound
  split
  · exact absurd ‹_› hMore
  · rename_i current rest hFrontier
    have hPop := @turnsLeft_pop _ tables search _ _ hFrontier
    have hHere := h.queued current (by rw [hFrontier]; exact mem_cons_self)
    split
    · rename_i hFull
      refine ⟨⟨h.sound.pop [], fun id hId => absurd hId not_mem_nil, fun hWide => ?_⟩, ?_⟩
      · have hLength := h.sound.length_le
        have hReached := h.sound.full_iff.mp hFull
        have hNodes := hWide.1
        omega
      · refine Nat.lt_of_le_of_lt ?_ hPop
        exact Nat.add_le_add_right (Nat.zero_le _) _
    · rename_i hNotFull
      have hPopped := h.sound.pop rest
      have hRoom : search.nodes.length < limit.toNat := Nat.lt_of_not_le (mt h.sound.full_iff.mpr hNotFull)
      have hRows : ∀ row ∈ impactRows tables order current, Row tables (Impacts tables) current row := fun row hRow =>
        mem_impactRows hRow
      obtain ⟨hSound, ⟨news, hAdds⟩, hAll⟩ := @Sound.visit _ tables limit current _ _ keepAll id _ _ hPopped hRoom mem_keepAll hHere hRows fun row hRow =>
        (h.sound.reached current hHere).tail (hRows row hRow).leads
      have hFrontierAfter := hAdds.frontier
      rw [map_id] at hFrontierAfter
      refine ⟨⟨hSound, fun other hOther => ?_, fun hWide => ?_⟩, ?_⟩
      · rw [hFrontierAfter] at hOther
        rcases mem_append.mp hOther with hOld | hNew
        · exact (hAdds.seen _).mpr (.inl (h.queued other (by rw [hFrontier]; exact mem_cons_of_mem _ hOld)))
        · exact (hAdds.seen _).mpr (.inr hNew)
      · have hSpreading := h.spreading hWide
        rw [hFrontier] at hSpreading
        rw [hFrontierAfter]
        refine hSpreading.expand (fun other => ?_) (fun other hNew => (hAdds.fresh other hNew).2) fun other hSeen hOld =>
          ((hAdds.seen other).mp hSeen).resolve_left hOld
        constructor
        · exact fun hSeen => ((hAdds.seen other).mp hSeen).imp id fun hNew => (hAdds.fresh other hNew).2
        · rintro (hOld | hEdge)
          · exact (hAdds.seen other).mpr (.inl hOld)
          · obtain ⟨row, hRow, rfl⟩ := @impactRows_complete tables order current other hEdge
            exact hAll hWide.1 row hRow
      · rw [turnsLeft_adds hAdds hSound]
        exact hPop

/-- A part of what a search is about: rows that it may return, each once and not more than
the limit allows, and edges that do not leave them. -/
structure Part (tables : GraphTables) (limit : UInt32) (reach : String → Prop) (found : GraphNeighborhood) : Prop where
  nodes : ∀ node ∈ found.nodes, node ∈ tables.nodes ∧ reach node.id
  nodup : found.nodes.Nodup
  few : found.nodes.length ≤ max limit.toNat 1
  closed : ∀ edge ∈ found.edges, edge ∈ tables.edges ∧ (∃ node ∈ found.nodes, node.id = edge.fromId) ∧
    ∃ node ∈ found.nodes, node.id = edge.toId

include h in
theorem Sound.part : Part tables limit reach search.neighborhood where
  nodes := fun node hNode => ⟨(getNode_eq_some.mp (h.stored node hNode)).1,
    h.reached _ ((h.seen _).mpr (mem_map_of_mem hNode))⟩
  nodup := List.Nodup.of_map _ h.nodup
  few := h.few
  closed := by
    intro edge hEdge
    obtain ⟨hStored, hFrom, hTo⟩ := h.closed edge hEdge
    exact ⟨hStored, mem_map.mp ((h.seen _).mp hFrom), mem_map.mp ((h.seen _).mp hTo)⟩

include h in
theorem Sound.whole (hAll : ∀ id, reach id → id ∈ search.seen) {node : GraphNode}
    (hNode : node ∈ tables.nodes) (hReach : reach node.id) : node ∈ search.neighborhood.nodes := by
  obtain ⟨found, hFound, hId⟩ := mem_map.mp ((h.seen _).mp (hAll _ hReach))
  have hStored := (getNode_eq_some.mp (h.stored found hFound)).1
  rwa [← KeyedTable.eq_of_key_eq hStored hNode hId]

/-- A search ends, after no more turns than there are nodes. What it returns is a part of
what it is about, and all of it when the limit is above the numbers of nodes and edges. -/
def Finds (tables : GraphTables) (limit : UInt32) (reach : String → Prop) (search : Nat → Option GraphNeighborhood) : Prop :=
  ∃ found, (∀ fuel, tables.nodes.rows.length ≤ fuel → search fuel = some found) ∧ Part tables limit reach found ∧
    (Wide tables limit → ∀ node, node ∈ found.nodes ↔ node ∈ tables.nodes ∧ reach node.id)

theorem related_finds (order : RowOrder) (depth limit : UInt32) (hRoot : getNode tables start = some root) :
    Finds tables limit (Within (Joined tables) start depth.toNat) (related tables order start depth limit) := by
  have hStart : RelatedKept tables start depth limit (begin tables start (start, 0)) := by
    refine ⟨sound_begin hRoot (.start _) _, fun entry hEntry => ?_, fun _ => ?_⟩
    · cases mem_singleton.mp hEntry
      exact ⟨mem_singleton.mpr rfl, .start 0⟩
    · have hInit := Layered.init (Joined tables) start depth.toNat
      have hSeen : (fun id => id ∈ (begin tables start (start, 0)).seen) = fun id => id = start :=
        funext fun id => propext mem_singleton
      rw [hSeen]
      exact hInit
  obtain ⟨final, hRuns, hFinal, hEmpty⟩ := @loop_ends _ (relatedRound tables order depth limit) _ (turnsLeft tables)
    (fun _ hMore h => RelatedKept.turn h hMore) _ hStart
  refine ⟨final.neighborhood, fun fuel hFuel => ?_, hFinal.sound.part, fun hWide node =>
    ⟨hFinal.sound.part.nodes node, fun ⟨hNode, hWithin⟩ => ?_⟩⟩
  · unfold related
    rw [hRuns fuel ((turnsLeft_begin hRoot _).trans hFuel)]
    rfl
  · have hLayered := hFinal.layered hWide
    rw [hEmpty] at hLayered
    exact hFinal.sound.whole (fun id hId => hLayered.finished.mpr hId) hNode hWithin

theorem impact_finds (order : RowOrder) (limit : UInt32) (hRoot : getNode tables start = some root) :
    Finds tables limit (Relation.ReflTransGen (Impacts tables) start) (impact tables order start limit) := by
  have hStart : ImpactKept tables start limit (begin tables start start) := by
    refine ⟨sound_begin hRoot .refl _, fun id hId => hId, fun _ => ?_⟩
    have hInit := Spreading.init (Impacts tables) start
    have hSeen : (fun id => id ∈ (begin tables start start).seen) = fun id => id = start :=
      funext fun id => propext mem_singleton
    rw [hSeen]
    exact hInit
  obtain ⟨final, hRuns, hFinal, hEmpty⟩ := @loop_ends _ (impactRound tables order limit) _ (turnsLeft tables)
    (fun _ hMore h => ImpactKept.turn h hMore) _ hStart
  refine ⟨final.neighborhood, fun fuel hFuel => ?_, hFinal.sound.part, fun hWide node =>
    ⟨hFinal.sound.part.nodes node, fun ⟨hNode, hReaches⟩ => ?_⟩⟩
  · unfold impact
    rw [hRuns fuel ((turnsLeft_begin hRoot _).trans hFuel)]
    rfl
  · have hSpreading := hFinal.spreading hWide
    rw [hEmpty] at hSpreading
    exact hFinal.sound.whole (fun id hId => hSpreading.finished.mpr hId) hNode hReaches

/-- From a node that is a row, `related` finds the nodes within an undirected distance, and
`impact` those that it reaches along the edges of its kinds. -/
theorem searches_exact (order : RowOrder) (depth limit : UInt32) (hStart : Stored tables start) :
    Finds tables limit (fun id => (undirected tables).edist start id ≤ depth.toNat)
        (related tables order start depth limit) ∧
      Finds tables limit (Relation.ReflTransGen (Impacts tables) start) (impact tables order start limit) := by
  obtain ⟨root, hRoot⟩ := Option.isSome_iff_exists.mp hStart
  refine ⟨?_, impact_finds order limit hRoot⟩
  have hDistance : Within (Joined tables) start depth.toNat = fun id => (undirected tables).edist start id ≤ depth.toNat :=
    funext fun id => propext (within_iff hStart)
  rw [← hDistance]
  exact related_finds order depth limit hRoot

instance (item later : GraphContextItem) : Decidable (item.Before later) :=
  inferInstanceAs (Decidable (_ ∨ _))

theorem before_total (item later : GraphContextItem) : item.Before later ∨ later.Before item := by
  rcases lt_trichotomy item.edge.kind later.edge.kind with hLess | hSame | hMore
  · exact .inl (.inl hLess)
  · rcases le_total later.node.updatedAt item.node.updatedAt with hLater | hEarlier
    · exact .inl (.inr ⟨hSame, hLater⟩)
    · exact .inr (.inr ⟨hSame.symm, hEarlier⟩)
  · exact .inr (.inl hMore)

theorem before_trans {first second third : GraphContextItem} (h : first.Before second) (h' : second.Before third) :
    first.Before third := by
  rcases h with hLess | ⟨hSame, hLe⟩
  · rcases h' with hLess' | ⟨hSame', _⟩
    · exact .inl (hLess.trans hLess')
    · exact .inl (hSame' ▸ hLess)
  · rcases h' with hLess' | ⟨hSame', hLe'⟩
    · exact .inl (hSame ▸ hLess')
    · exact .inr ⟨hSame.trans hSame', hLe'.trans hLe⟩

def stableOrder : RowOrder where
  items rows := rows.insertionSort GraphContextItem.Before
  items_perm rows := perm_insertionSort _ rows
  items_sorted rows :=
    have : Std.Total GraphContextItem.Before := ⟨before_total⟩
    have : IsTrans GraphContextItem GraphContextItem.Before := ⟨fun _ _ _ => before_trans⟩
    pairwise_insertionSort _ rows
  edges rows := rows
  edges_perm := .refl

private def plannedGraph : GraphTables where
  nodes := ⟨[⟨"plan:1", "Plan", "1", none, "", "", "", .null⟩, ⟨"task:1", "Task", "1", none, "", "", "", .null⟩], by decide⟩
  edges := ⟨[⟨"plan:1", "task:1", "PlanContains", none, .null⟩, ⟨"task:1", "task:2", "Blocks", none, .null⟩], by decide⟩

/-- The searches from a plan with a task that blocks one which is no row. -/
theorem searches_exact_planned :
    Finds plannedGraph 10 (fun id => (undirected plannedGraph).edist "plan:1" id ≤ (2 : UInt32).toNat)
        (related plannedGraph stableOrder "plan:1" 2 10) ∧
      Finds plannedGraph 10 (Relation.ReflTransGen (Impacts plannedGraph) "plan:1") (impact plannedGraph stableOrder "plan:1" 10) :=
  searches_exact stableOrder 2 10 rfl

end WorkspaceGraphRepo
end Daruma
