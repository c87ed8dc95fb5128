import GraphViews.Graph.Change
import GraphViews.Graph.Sets
import GraphViews.Outline
/-!
# What any graph answers

However a graph is kept, it has edges of one kind, allows self-loops or not, and hands out its sets. The
other questions about a graph can be answered from the sets alone, and here they are. `Graph` answers some
of them from its records, by a shorter way.
-/

namespace GraphViews

/-- The answers of a graph at one moment. -/
structure Survey (ν : Type) where
  edgeKind : EdgeKind
  selfLoops : Bool
  nodes : Reading ν
  neighbors : Side → ν → Reading ν
  edges : Reading (Ends ν)
  incident : ν → Reading (Ends ν)

/-- The survey of a graph. -/
def Graph.survey {ν : Type} [BEq ν] {d : EdgeKind} (g : Graph ν d) : Survey ν where
  edgeKind := d
  selfLoops := g.selfLoops
  nodes := g.nodes
  neighbors := g.neighbors
  edges := g.edges
  incident := g.incident

namespace Survey

variable {ν : Type}

/-- The number of edges at `x`, a self-loop counted once. -/
def degree (g : Survey ν) (x : ν) : Nat := (g.incident x).size

/-- The number of edges into `x`. -/
def inDegree (g : Survey ν) (x : ν) : Nat := (g.neighbors .predecessors x).size

/-- The number of edges out of `x`. -/
def outDegree (g : Survey ν) (x : ν) : Nat := (g.neighbors .successors x).size

/-- Whether there is an edge from `u` to `v`. -/
def hasEdge (g : Survey ν) (u v : ν) : Bool := (g.neighbors .successors u).contains v

/-- Whether there is an edge that `p` names. -/
def hasPair (g : Survey ν) (p : Ends ν) : Bool := g.edgeKind.admits p && g.hasEdge p.fst p.snd

/-- Two graphs are equal if both are directed or both are not, and they have equal nodes and equal edges.
The self-loop policy does not count. -/
def equal (a b : Survey ν) : Bool :=
  a.edgeKind == b.edgeKind && a.nodes.equal b.nodes && a.edges.equal b.edges

/-- What the texts of the graph show. -/
def outline (g : Survey ν) : Outline ν where
  isDirected := g.edgeKind.isDirected
  selfLoops := g.selfLoops
  nodes := g.nodes.items
  edges := g.edges.items

end Survey

end GraphViews
