import GraphViews.Graph
/-!
# The sets of a graph

A graph hands out its nodes, its edges, and for each node the neighbors and the edges at it. What each
set answers is computed from the records when it is asked, and its four answers take different ways: the
size of the edge set is the graph's count, while its items come from a scan of the records.
-/

namespace GraphViews

/-- Which neighbors of a node a set holds. -/
inductive Side where
  | adjacent
  | predecessors
  | successors
  deriving DecidableEq

namespace Neighborhood

variable {ν : Type} [BEq ν] {d : EdgeKind}

/-- The neighbors on one side. -/
def neighbors (c : Neighborhood ν d) : Side → Reading ν
  | .adjacent => c.adjacent
  | .predecessors => c.predecessors.reading
  | .successors => c.successors.reading

end Neighborhood

namespace Graph

variable {ν : Type} [BEq ν] {d : EdgeKind}

/-- The nodes of the graph. -/
def nodes (g : Graph ν d) : Reading ν where
  contains := g.hasNode
  size := g.nodeCount
  items := g.records.keys

/-- The neighbors of `x` on one side; none while `x` is not in the graph. -/
def neighbors (g : Graph ν d) (side : Side) (x : ν) : Reading ν :=
  ((g.records.find? x).map (·.neighbors side)).getD .empty

/-- The edges at `x`, which comes up in them as it is written here. -/
def incident (g : Graph ν d) (x : ν) : Reading (Ends ν) where
  contains p := (g.records.find? x).any (·.hasIncident x p)
  size := g.degree x
  items := ((g.records.find? x).map (·.incident x)).getD []

/-- The pairs that name the listed edges. -/
def listedEdges (g : Graph ν d) : List (Ends ν) := g.listed.map fun e => d.edge e.1 e.2

/-- Whether there is an edge that `p` names. -/
def hasPair (g : Graph ν d) (p : Ends ν) : Bool := d.admits p && g.hasEdge p.fst p.snd

/-- The edges of the graph, each once. -/
def edges (g : Graph ν d) : Reading (Ends ν) where
  contains := g.hasPair
  size := g.edgeCount
  items := if d.isDirected then g.listedEdges else (ItemSet.ofList g.listedEdges).items

end Graph

end GraphViews
