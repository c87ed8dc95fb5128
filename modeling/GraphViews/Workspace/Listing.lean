import GraphViews.Node.Atom
import GraphViews.Node.Order
import GraphViews.Store
import GraphViews.Workspace.Answer
/-!
# Listing sets and graphs

How a workspace lists the items of sets: sorted, and as nodes, where an edge is the pair that names it.
The edges of an undirected graph are made canonical first, and so is everything in a view over them,
because either end of such an edge may come first.
-/

namespace GraphViews

/-! ## Items as nodes -/

/-- An item of a set of any kind, as a node. -/
def ItemKind.toNode {β : Type} : (kind : ItemKind) → kind.Item (Node β) → Node β
  | node, x => x
  | edge, p => .pair p

/-- The item of a set of a kind that a node stands for. -/
def ItemKind.ofNode? {β : Type} : (kind : ItemKind) → Node β → Option (kind.Item (Node β))
  | node, x => some x
  | edge, .pair p => some p
  | edge, .atom _ => none

/-- A view over sets of either kind. -/
structure AnyView (ν : Type) where
  kind : ItemKind
  view : View (Leaf ν kind)

/-! ## Sorted listings -/

/-- A list of items as it is shown, made canonical first if `loose`. -/
def listing (loose : Bool) (xs : List (Node Atom)) : List (Node Atom) :=
  Node.sorted (if loose then xs.map Node.canonical else xs)

/-- The edges of a graph as they are shown. -/
def edgeListing (d : EdgeKind) (ps : List (Ends (Node Atom))) : List (Ends (Node Atom)) :=
  Ends.sorted (if d.isDirected then ps else ps.map Ends.canonical)

/-- The outline of a graph as it is shown. -/
def Survey.listing (g : Survey (Node Atom)) : Outline (Node Atom) :=
  { g.outline with nodes := Node.sorted g.nodes.items, edges := edgeListing g.edgeKind g.edges.items }

/-- The contents of a graph as they are shown. -/
def Survey.contents (g : Survey (Node Atom)) : Contents :=
  ⟨g.listing.nodes, g.listing.edges, g.edges.size⟩

/-- All about one node of a graph, as it is shown. -/
def AnyGraph.row (g : AnyGraph (Node Atom)) (x : Node Atom) : Row where
  node := x
  degree := g.graph.degree x
  inDegree := g.graph.inDegree x
  outDegree := g.graph.outDegree x
  adjacent := Node.sorted (g.graph.neighbors .adjacent x).items
  predecessors := Node.sorted (g.graph.neighbors .predecessors x).items
  successors := Node.sorted (g.graph.neighbors .successors x).items
  incident := Ends.sorted (g.graph.incident x).items
  adjacentSize := (g.graph.neighbors .adjacent x).size
  incidentSize := (g.graph.incident x).size

/-! ## Views in a store -/

namespace Store

/-- Whether a leaf is the edge set of an undirected graph. -/
def isLoose {ν : Type} [BEq ν] (s : Store ν) {kind : ItemKind} : Leaf ν kind → Bool
  | .edges id => (s.graphs[id]?).any fun g => !g.edgeKind.isDirected
  | _ => false

/-- Whether the items of a view are made canonical before they are listed. -/
def listsLoosely {ν : Type} [BEq ν] (s : Store ν) (v : AnyView ν) : Bool := v.view.leaves.any s.isLoose

/-- What a view answers, with its items as nodes. -/
def readAny {β : Type} [BEq β] (s : Store (Node β)) (v : AnyView (Node β)) : Reading (Node β) :=
  (s.read v.view).embed v.kind.toNode v.kind.ofNode?

/-- The items of a view, collected as nodes. -/
def collectAny {β : Type} [BEq β] (s : Store (Node β)) (v : AnyView (Node β)) : List (Node β) :=
  (s.collect v.view).map v.kind.toNode

end Store

end GraphViews
