import Daruma.Library.KeyedTable
import Daruma.Shared.Ids

/-! The rows of the workspace graph, and the two searches of it. Both go breadth first
from one node, with a queue and a set of the nodes that were seen. -/
namespace Daruma

structure GraphNode where
  id : String
  kind : String
  sourceId : String
  projectId : Option String
  title : String
  text : String
  updatedAt : String
  metadata : JsonValue

structure GraphEdge where
  fromId : String
  toId : String
  kind : String
  sourceEventSeq : Option Int
  metadata : JsonValue

def GraphEdge.key (edge : GraphEdge) : String × String × String := (edge.fromId, edge.toId, edge.kind)

inductive GraphDirection where
  | incoming | outgoing

structure GraphContextItem where
  node : GraphNode
  edge : GraphEdge
  direction : GraphDirection

structure GraphNeighborhood where
  nodes : List GraphNode
  edges : List GraphEdge

/-- The two tables. No constraint holds between them: an edge may name nodes that are
not there. -/
structure GraphTables where
  nodes : KeyedTable String GraphNode GraphNode.id
  edges : KeyedTable (String × String × String) GraphEdge GraphEdge.key

/-- By the kind of the edge, and the latest node first. -/
def GraphContextItem.Before (item later : GraphContextItem) : Prop :=
  item.edge.kind < later.edge.kind ∨ (item.edge.kind = later.edge.kind ∧ later.node.updatedAt ≤ item.node.updatedAt)

/-- How the store lists the rows of a query: in any order that its `ORDER BY` leaves open. -/
structure RowOrder where
  items : List GraphContextItem → List GraphContextItem
  items_perm : ∀ rows, (items rows).Perm rows
  items_sorted : ∀ rows, (items rows).Pairwise GraphContextItem.Before
  edges : List GraphEdge → List GraphEdge
  edges_perm : ∀ rows, (edges rows).Perm rows

namespace WorkspaceGraphRepo

def getNode (tables : GraphTables) (id : String) : Option GraphNode := tables.nodes.find? id

def contextItem (tables : GraphTables) (nodeId : String) (edge : GraphEdge) : Option GraphContextItem :=
  (getNode tables (if edge.fromId = nodeId then edge.toId else edge.fromId)).map fun node =>
    ⟨node, edge, if edge.fromId = nodeId then .outgoing else .incoming⟩

def context (tables : GraphTables) (order : RowOrder) (nodeId : String) (limit : UInt32) : List GraphContextItem :=
  (order.items ((tables.edges.rows.filter fun edge => edge.fromId = nodeId || edge.toId = nodeId).filterMap
    (contextItem tables nodeId))).take limit.toNat

structure Search (Entry : Type) where
  seen : List String
  frontier : List Entry
  nodes : List GraphNode
  edges : List GraphEdge

variable {Entry : Type}

/-- The number of nodes, as a `u32`, has come to the limit. -/
def full (limit : UInt32) (nodes : List GraphNode) : Bool := decide (limit ≤ UInt32.ofNat nodes.length)

/-- A row that a search looks at: its edge is kept, and its node is queued when it is new. -/
def visit (limit : UInt32) (keep : List GraphEdge → GraphEdge → List GraphEdge) (child : String → Entry) :
    Search Entry → List (GraphEdge × GraphNode) → Search Entry
  | search, [] => search
  | search, (edge, node) :: rest =>
    let kept := { search with edges := keep search.edges edge }
    if node.id ∈ kept.seen then visit limit keep child kept rest
    else
      let queued := { kept with
        seen := node.id :: kept.seen
        frontier := kept.frontier ++ [child node.id]
        nodes := kept.nodes ++ [node] }
      if full limit queued.nodes then queued else visit limit keep child queued rest

def keepOnce (edges : List GraphEdge) (edge : GraphEdge) : List GraphEdge :=
  if edges.any fun other => other.fromId = edge.fromId && other.toId = edge.toId && other.kind = edge.kind then edges
  else edges ++ [edge]

def keepAll (edges : List GraphEdge) (edge : GraphEdge) : List GraphEdge := edges ++ [edge]

/-- One turn of the loop of `related`. -/
def relatedRound (tables : GraphTables) (order : RowOrder) (depth limit : UInt32) (search : Search (String × Nat)) :
    Search (String × Nat) :=
  match search.frontier with
  | [] => search
  | (current, currentDepth) :: rest =>
    let popped := { search with frontier := rest }
    if depth.toNat ≤ currentDepth || full limit popped.nodes then popped
    else visit limit keepOnce (fun id => (id, currentDepth + 1)) popped
      ((context tables order current limit).map fun item => (item.edge, item.node))

def impactKinds : List String :=
  ["Blocks", "PlanContains", "Contains", "Produces", "ArtDependsOn", "ArtImplements", "ArtTests", "ArtDocuments",
    "ArtSupersedes", "ArtConflictsWith"]

def impactRows (tables : GraphTables) (order : RowOrder) (nodeId : String) : List (GraphEdge × GraphNode) :=
  (order.edges (tables.edges.rows.filter fun edge => edge.fromId = nodeId && edge.kind ∈ impactKinds)).filterMap
    fun edge => (getNode tables edge.toId).map fun node => (edge, node)

/-- One turn of the loop of `impact`. A full search leaves the loop. -/
def impactRound (tables : GraphTables) (order : RowOrder) (limit : UInt32) (search : Search String) : Search String :=
  match search.frontier with
  | [] => search
  | current :: rest =>
    if full limit search.nodes then { search with frontier := [] }
    else visit limit keepAll id { search with frontier := rest } (impactRows tables order current)

/-- Turn after turn, until the queue is empty. -/
def loop (turn : Search Entry → Search Entry) : Nat → Search Entry → Option (Search Entry)
  | 0, search => if search.frontier.isEmpty then some search else none
  | fuel + 1, search => if search.frontier.isEmpty then some search else loop turn fuel (turn search)

def Search.neighborhood (search : Search Entry) : GraphNeighborhood := ⟨search.nodes, search.edges⟩

def begin (tables : GraphTables) (nodeId : String) (entry : Entry) : Search Entry :=
  ⟨[nodeId], [entry], (getNode tables nodeId).toList, []⟩

def related (tables : GraphTables) (order : RowOrder) (nodeId : String) (depth limit : UInt32) (fuel : Nat) :
    Option GraphNeighborhood :=
  (loop (relatedRound tables order depth limit) fuel (begin tables nodeId (nodeId, 0))).map Search.neighborhood

def impact (tables : GraphTables) (order : RowOrder) (nodeId : String) (limit : UInt32) (fuel : Nat) :
    Option GraphNeighborhood :=
  (loop (impactRound tables order limit) fuel (begin tables nodeId nodeId)).map Search.neighborhood

end WorkspaceGraphRepo
end Daruma
