import GraphViews.Node
/-!
# The order of listings

A set has no order, so a listing of one sorts its items: atoms first, then ordered pairs, then unordered
ones, and pairs of one kind by the end given first and then by the other.

The ends of an edge of an undirected graph may come in either order. Before such edges are listed they
are made canonical: in every unordered pair, at any depth, the smaller end comes first.
-/

namespace GraphViews

namespace Node

variable {β : Type} [Ord β]

/-- The order of listings. -/
def order : Node β → Node β → Ordering
  | .atom a, .atom b => Ord.compare a b
  | .atom _, .pair _ => .lt
  | .pair _, .atom _ => .gt
  | .pair (.ordered _ _), .pair (.unordered _ _) => .lt
  | .pair (.unordered _ _), .pair (.ordered _ _) => .gt
  | .pair (.ordered s t), .pair (.ordered s' t') => (order s s').then (order t t')
  | .pair (.unordered u v), .pair (.unordered u' v') => (order u u').then (order v v')
termination_by structural x => x

instance : Ord (Node β) := ⟨order⟩

/-- The node with the ends of every unordered pair in order, the smaller first. -/
def canonical : Node β → Node β
  | .atom a => .atom a
  | .pair (.ordered s t) => .pair (.ordered (canonical s) (canonical t))
  | .pair (.unordered u v) =>
    let u := canonical u
    let v := canonical v
    if (order u v).isLE then .pair (.unordered u v) else .pair (.unordered v u)

/-- The nodes in the order of listings. -/
def sorted (xs : List (Node β)) : List (Node β) := xs.mergeSort fun x y => (order x y).isLE

end Node

namespace Ends

variable {β : Type} [Ord β]

/-- The pair as a canonical node. -/
def canonical : Ends (Node β) → Ends (Node β)
  | ordered s t => ordered s.canonical t.canonical
  | unordered u v =>
    if (u.canonical.order v.canonical).isLE then unordered u.canonical v.canonical
    else unordered v.canonical u.canonical

/-- The pairs in the order of listings. -/
def sorted (ps : List (Ends (Node β))) : List (Ends (Node β)) :=
  ps.mergeSort fun p q => (Node.order (.pair p) (.pair q)).isLE

end Ends

end GraphViews
