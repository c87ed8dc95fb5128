import GraphViews.EdgeKind
import GraphViews.Reading
/-!
# The neighborhood of one node

What a graph keeps for a node: the nodes at the other ends of its edges. In an undirected graph one set
serves for both directions; in a directed graph there are two. A self-loop puts the node into its own
record.

A record does not know its own node, so questions about edges take the node as an argument. A record on
its own may be one-sided: it may list a node as a successor of itself without listing it as a
predecessor.
-/

namespace GraphViews

/-- The record of one node: its neighbors in a graph with the given kind of edges. -/
inductive Neighborhood (ν : Type) [BEq ν] : EdgeKind → Type where
  | shared (neighbors : ItemSet ν) : Neighborhood ν .undirected
  | split (predecessors successors : ItemSet ν) : Neighborhood ν .directed

namespace Neighborhood

variable {ν : Type} [BEq ν] {d : EdgeKind}

/-- The record of a node without edges. -/
def empty : (d : EdgeKind) → Neighborhood ν d
  | .undirected => shared .empty
  | .directed => split .empty .empty

/-- The nodes with an edge into this one. -/
def predecessors : Neighborhood ν d → ItemSet ν
  | shared neighbors => neighbors
  | split predecessors _ => predecessors

/-- The nodes with an edge out of this one. -/
def successors : Neighborhood ν d → ItemSet ν
  | shared neighbors => neighbors
  | split _ successors => successors

/-- The nodes with an edge in either direction. Of a node that is both a predecessor and a successor, the
predecessor's form shows. -/
def adjacent : Neighborhood ν d → Reading ν
  | shared neighbors => neighbors.reading
  | split predecessors successors => predecessors.reading.union successors.reading

/-! ## Changes -/

/-- Notes an edge from `x` into this node. -/
def insertPredecessor (c : Neighborhood ν d) (x : ν) : Neighborhood ν d :=
  match c with
  | shared neighbors => shared (neighbors.insert x)
  | split predecessors successors => split (predecessors.insert x) successors

/-- Notes an edge from this node to `x`. -/
def insertSuccessor (c : Neighborhood ν d) (x : ν) : Neighborhood ν d :=
  match c with
  | shared neighbors => shared (neighbors.insert x)
  | split predecessors successors => split predecessors (successors.insert x)

/-- Strikes out the edge from `x` into this node. -/
def erasePredecessor (c : Neighborhood ν d) (x : ν) : Neighborhood ν d :=
  match c with
  | shared neighbors => shared (neighbors.erase x)
  | split predecessors successors => split (predecessors.erase x) successors

/-- Strikes out the edge from this node to `x`. -/
def eraseSuccessor (c : Neighborhood ν d) (x : ν) : Neighborhood ν d :=
  match c with
  | shared neighbors => shared (neighbors.erase x)
  | split predecessors successors => split predecessors (successors.erase x)

/-- One change to a record. -/
inductive Amendment (ν : Type) where
  | insertPredecessor (x : ν)
  | insertSuccessor (x : ν)
  | erasePredecessor (x : ν)
  | eraseSuccessor (x : ν)

/-- Makes one change and tells whether it changed the record. -/
def amend (c : Neighborhood ν d) : Amendment ν → Bool × Neighborhood ν d
  | .insertPredecessor x => (!c.predecessors.contains x, c.insertPredecessor x)
  | .insertSuccessor x => (!c.successors.contains x, c.insertSuccessor x)
  | .erasePredecessor x => (c.predecessors.contains x, c.erasePredecessor x)
  | .eraseSuccessor x => (c.successors.contains x, c.eraseSuccessor x)

/-! ## The edges at a node -/

/-- The number of edges at `x`, whose record this is. A self-loop of a directed graph is on both sides
and counts once. -/
def degree (c : Neighborhood ν d) (x : ν) : Nat :=
  match c with
  | shared neighbors => neighbors.size
  | split predecessors successors =>
    predecessors.size + successors.size - (if successors.contains x then 1 else 0)

/-- Whether `p` is an edge at `x`, whose record this is. -/
def hasIncident (c : Neighborhood ν d) (x : ν) (p : Ends ν) : Bool :=
  match c with
  | shared neighbors => !p.isOrdered && (p.opposite? x).any neighbors.contains
  | split predecessors successors =>
    p.isOrdered && ((p.fst == x && successors.contains p.snd) || (p.snd == x && predecessors.contains p.fst))

/-- The edges at `x`, whose record this is, each once. In a directed graph the edges into `x` come first,
a self-loop among them. -/
def incident (c : Neighborhood ν d) (x : ν) : List (Ends ν) :=
  match c with
  | shared neighbors => neighbors.items.map (.unordered x ·)
  | split predecessors successors =>
    predecessors.items.map (.ordered · x) ++
      (successors.items.filter fun y => !(x == y)).map (.ordered x ·)

end Neighborhood

end GraphViews
