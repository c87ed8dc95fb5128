import GraphViews.Neighborhood
import GraphViews.Table
import GraphViews.Violation
/-!
# Graphs

A graph keeps a record for each of its nodes and a count of its edges. Every edge is noted at both of its
ends, and the count is kept along with the records, never taken from them.

The functions here change or read a graph without any check and without telling what happened; the checks,
the answers and the journal come with `Change`.
-/

namespace GraphViews

/-- A graph over nodes `ν`. -/
structure Graph (ν : Type) [BEq ν] (d : EdgeKind) where
  selfLoops : Bool
  records : Table ν (Neighborhood ν d)
  edgeCount : Nat

namespace Graph

variable {ν : Type} [BEq ν] {d : EdgeKind}

/-- The graph without nodes. -/
def empty (d : EdgeKind) (selfLoops : Bool) : Graph ν d := ⟨selfLoops, .empty, 0⟩

/-! ## Questions

A question about a node that is not in the graph has an answer too: there is no edge at it. -/

/-- Whether `x` is a node of the graph. -/
def hasNode (g : Graph ν d) (x : ν) : Bool := g.records.contains x

/-- The number of nodes. -/
def nodeCount (g : Graph ν d) : Nat := g.records.size

/-- Whether there is an edge from `u` to `v`. -/
def hasEdge (g : Graph ν d) (u v : ν) : Bool := (g.records.find? u).any (·.successors.contains v)

/-- The number of edges at `x`, a self-loop counted once. -/
def degree (g : Graph ν d) (x : ν) : Nat := ((g.records.find? x).map (·.degree x)).getD 0

/-- The number of edges into `x`. -/
def inDegree (g : Graph ν d) (x : ν) : Nat := ((g.records.find? x).map (·.predecessors.size)).getD 0

/-- The number of edges out of `x`. -/
def outDegree (g : Graph ν d) (x : ν) : Nat := ((g.records.find? x).map (·.successors.size)).getD 0

/-- The edges as the records list them, from each node to its successors. An undirected edge is listed at
both of its ends. -/
def listed (g : Graph ν d) : List (ν × ν) :=
  g.records.entries.flatMap fun e => e.2.successors.items.map (e.1, ·)

/-! ## Changes -/

/-- The graph with the node `x`. -/
def withNode (g : Graph ν d) (x : ν) : Graph ν d :=
  { g with records := g.records.insertNew x (.empty d) }

/-- The graph with the edge from `u` to `v`, and with its ends. The edge is noted as an edge out of `u`
first; it counts as new if it was not noted there. -/
def withEdge (g : Graph ν d) (u v : ν) : Graph ν d :=
  { g with
    records :=
      (g.records.upsert u (.empty d) (·.insertSuccessor v)).upsert v (.empty d) (·.insertPredecessor u)
    edgeCount := if g.hasEdge u v then g.edgeCount else g.edgeCount + 1 }

/-- The records without the node `x`, whose record is `c`: only the neighbors that `c` lists are looked
up, to strike `x` out of their records. In an undirected graph the two directions are one. -/
def detach (records : Table ν (Neighborhood ν d)) (x : ν) (c : Neighborhood ν d) :
    Table ν (Neighborhood ν d) :=
  let others (s : ItemSet ν) := s.items.filter fun y => !(x == y)
  let records := (others c.successors).foldl (fun t y => t.modify y (·.erasePredecessor x)) (records.erase x)
  if d.isDirected then
    (others c.predecessors).foldl (fun t y => t.modify y (·.eraseSuccessor x)) records
  else records

/-- The graph without the node `x` and the edges at it. -/
def withoutNode (g : Graph ν d) (x : ν) : Graph ν d :=
  match g.records.find? x with
  | none => g
  | some c => { g with records := detach g.records x c, edgeCount := g.edgeCount - c.degree x }

/-- The graph without the edge from `u` to `v`. Its ends stay. -/
def withoutEdge (g : Graph ν d) (u v : ν) : Graph ν d :=
  { g with
    records := (g.records.modify u (·.eraseSuccessor v)).modify v (·.erasePredecessor u)
    edgeCount := if g.hasEdge u v then g.edgeCount - 1 else g.edgeCount }

end Graph

end GraphViews
