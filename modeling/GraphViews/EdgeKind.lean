import GraphViews.Ends
/-!
# Kinds of edges

Whether the edges of a graph have a direction, and with it which kind of pair names an edge.
-/

namespace GraphViews

/-- Whether a graph's edges have a direction. -/
inductive EdgeKind where
  | directed
  | undirected
  deriving DecidableEq

namespace EdgeKind

/-- Whether the edges have a direction. -/
def isDirected : EdgeKind → Bool
  | directed => true
  | undirected => false

/-- The pair that names the edge from `u` to `v`. -/
def edge {ν : Type} (d : EdgeKind) (u v : ν) : Ends ν :=
  match d with
  | directed => .ordered u v
  | undirected => .unordered u v

/-- Whether a pair is of the kind that names edges. -/
def admits {ν : Type} (d : EdgeKind) (p : Ends ν) : Bool := p.isOrdered == d.isDirected

@[simp] theorem isOrdered_edge {ν : Type} (d : EdgeKind) (u v : ν) :
    (d.edge u v).isOrdered = d.isDirected := by
  cases d <;> rfl

/-- A pair of the right kind is the one made of its own ends. -/
theorem edge_fst_snd {ν : Type} {d : EdgeKind} {p : Ends ν} (h : d.admits p) :
    d.edge p.fst p.snd = p := by
  cases d <;> cases p <;> simp_all [admits, edge, Ends.isOrdered, isDirected, Ends.fst, Ends.snd]

end EdgeKind

end GraphViews
