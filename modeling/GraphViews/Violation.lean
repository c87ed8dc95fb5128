import GraphViews.EdgeKind
/-!
# Contract violations

What a caller can do wrong with a pair of ends or with a graph. A checked operation hands the violation
back. An asserted one fails its caller with it, after noting it in the journal. Both are about the same
causes, and asking about a node that is not in a graph is none of them.
-/

namespace GraphViews

/-- What the caller did wrong. -/
inductive Violation (ν : Type) where
  /-- The source or target of an unordered pair was asked for. -/
  | unordered
  /-- The end opposite to a node that is neither end was asked for. -/
  | notAnEnd (pair : Ends ν) (node : ν)
  /-- A self-loop was put into a graph that does not allow them. -/
  | selfLoop (node : ν)
  /-- An ordered pair was given to an undirected graph, or an unordered one to a directed graph. -/
  | wrongKind (pair : Ends ν)

/-- How an operation reports a violation. -/
inductive Strictness where
  | checked
  | asserted
  deriving DecidableEq

/-- A violation as an operation reports it. -/
structure Failure (ν : Type) where
  strictness : Strictness
  violation : Violation ν

namespace Violation

/-- The sentence that tells the caller. -/
def message {ν : Type} [Written ν] : Violation ν → String
  | unordered =>
    "Cannot call source()/target() on an EndpointPair from an undirected graph. " ++
    "Consider calling adjacent_node(node) if you already have a node, " ++
    "or node_u()/node_v() if you don't."
  | notAnEnd pair node =>
    "EndpointPair " ++ Written.plain pair ++ " does not contain node " ++ Written.plain node
  | selfLoop node =>
    "Cannot add self-loop edge on node " ++ Written.plain node ++
    ", as self-loops are not allowed. To construct a graph that allows self-loops, " ++
    "call allows_self_loops(true) on the builder."
  | wrongKind pair =>
    "Mismatch: endpoints' ordering is not compatible with directionality of the graph: " ++
    Written.plain pair

end Violation

/-- The outcome of an operation, reported with a strictness. -/
def Strictness.report {ν α : Type} (strictness : Strictness) :
    Except (Violation ν) α → Except (Failure ν) α
  | .ok a => .ok a
  | .error violation => .error ⟨strictness, violation⟩

namespace Ends

variable {ν : Type}

/-- The source of an ordered pair. -/
def source : Ends ν → Except (Violation ν) ν
  | ordered s _ => .ok s
  | unordered _ _ => .error .unordered

/-- The target of an ordered pair. -/
def target : Ends ν → Except (Violation ν) ν
  | ordered _ t => .ok t
  | unordered _ _ => .error .unordered

/-- Given one end, the other. -/
def opposite [BEq ν] (p : Ends ν) (x : ν) : Except (Violation ν) ν :=
  match p.opposite? x with
  | some y => .ok y
  | none => .error (.notAnEnd p x)

end Ends

/-- Checks that a pair is of the kind that names edges. -/
def EdgeKind.validate {ν : Type} (d : EdgeKind) (p : Ends ν) : Except (Violation ν) Unit :=
  if d.admits p then .ok () else .error (.wrongKind p)

end GraphViews
