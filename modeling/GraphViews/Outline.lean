import GraphViews.Ends
/-!
# The texts of a graph

A graph is shown by its two flags, its nodes and its edges, in a plain and in a quoted text. An outline is
just these, with the nodes and edges in the order in which they are to be listed.
-/

namespace GraphViews

/-- What the texts of a graph show. -/
structure Outline (ν : Type) where
  isDirected : Bool
  selfLoops : Bool
  nodes : List ν
  edges : List (Ends ν)

namespace Outline

variable {ν : Type} [Written ν]

def plain (o : Outline ν) : String :=
  "isDirected: " ++ flagText o.isDirected ++ ", allowsSelfLoops: " ++ flagText o.selfLoops ++
  ", nodes: " ++ plainListing o.nodes ++ ", edges: " ++ plainListing o.edges

def quoted (o : Outline ν) : String :=
  "AdjacencyListGraph \x7b is_directed: " ++ flagText o.isDirected ++
  ", allows_self_loops: " ++ flagText o.selfLoops ++
  ", nodes: " ++ quotedListing o.nodes ++ ", edges: " ++ quotedListing o.edges ++ " \x7d"

instance : Written (Outline ν) := ⟨plain, quoted⟩

end Outline

end GraphViews
