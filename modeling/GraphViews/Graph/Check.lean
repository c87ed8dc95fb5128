import GraphViews.Graph
/-!
# Checking a graph's records

The check goes through all records and looks for an edge that is not noted at both ends and for a self-loop
that the graph does not allow, and then for a count of edges that is wrong. It counts an undirected edge
once at each end and everything else twice, and compares half of that with the graph's own count.
-/

namespace GraphViews

/-- What can be wrong with the records of a graph. -/
inductive Inconsistency where
  | missingSuccessor
  | unreturnedSuccessor
  | missingPredecessor
  | unreturnedPredecessor
  | forbiddenSelfLoop
  | wrongEdgeCount
  deriving DecidableEq

/-- The sentence that names the fault. -/
def Inconsistency.message : Inconsistency → String
  | missingSuccessor => "successor is not a node of the graph"
  | unreturnedSuccessor => "successor does not list the node as a predecessor"
  | missingPredecessor => "predecessor is not a node of the graph"
  | unreturnedPredecessor => "predecessor does not list the node as a successor"
  | forbiddenSelfLoop => "self-loop in a graph that does not allow them"
  | wrongEdgeCount => "edge count does not match the adjacency lists"

namespace Graph

variable {ν : Type} [BEq ν] {d : EdgeKind}

/-- What is wrong with the successor `y` of `x`: it has to list `x` as a predecessor. -/
def successorFault? (g : Graph ν d) (x y : ν) : Option Inconsistency :=
  match g.records.find? y with
  | none => some .missingSuccessor
  | some c => if c.predecessors.contains x then none else some .unreturnedSuccessor

/-- What is wrong with the predecessor `y` of `x`: it has to list `x` as a successor. -/
def predecessorFault? (g : Graph ν d) (x y : ν) : Option Inconsistency :=
  match g.records.find? y with
  | none => some .missingPredecessor
  | some c => if c.successors.contains x then none else some .unreturnedPredecessor

/-- What is wrong with the record `c` of `x`. -/
def recordFault? (g : Graph ν d) (x : ν) (c : Neighborhood ν d) : Option Inconsistency :=
  (c.successors.items.findSome? (g.successorFault? x)).or <|
    (c.predecessors.items.findSome? (g.predecessorFault? x)).or <|
      if !g.selfLoops && c.successors.contains x then some .forbiddenSelfLoop else none

/-- Twice the number of edges, if every undirected edge is listed at both of its ends: a listed edge
counts twice if it is directed or a self-loop, which is listed once. -/
def doubledCount (g : Graph ν d) : Nat :=
  g.listed.length + g.listed.countP fun e => d.isDirected || e.2 == e.1

/-- The first fault of the graph. -/
def fault? (g : Graph ν d) : Option Inconsistency :=
  (g.records.entries.findSome? fun e => g.recordFault? e.1 e.2).or <|
    if g.doubledCount / 2 == g.edgeCount then none else some .wrongEdgeCount

/-- Checks the whole graph. -/
def check (g : Graph ν d) : Except Inconsistency Unit :=
  match g.fault? with
  | none => .ok ()
  | some fault => .error fault

end Graph

end GraphViews
