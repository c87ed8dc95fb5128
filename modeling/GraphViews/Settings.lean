import GraphViews.Survey
/-!
# Settings for new graphs

Settings fix the kind of edges and the self-loop policy of the graphs made from them, and may name the
number of nodes to expect, which changes no answer of a graph. They can be used again and again.
-/

namespace GraphViews

/-- How to make a graph. -/
structure Settings (d : EdgeKind) where
  selfLoops : Bool := false
  expectedNodes : Option Nat := none

namespace Settings

variable {d : EdgeKind}

/-- The settings of graphs like the one surveyed, without anything of its contents. -/
def like {ν : Type} (g : Survey ν) : Settings g.edgeKind := { selfLoops := g.selfLoops }

/-- Sets the self-loop policy. -/
def allowSelfLoops (s : Settings d) (allowed : Bool) : Settings d := { s with selfLoops := allowed }

/-- Names the number of nodes to expect. -/
def expectNodes (s : Settings d) (count : Nat) : Settings d := { s with expectedNodes := some count }

/-- A new graph without nodes. -/
def build {ν : Type} [BEq ν] (s : Settings d) : Graph ν d := .empty d s.selfLoops

/-- The text of the settings. -/
def text (s : Settings d) : String :=
  "GraphBuilder \x7b allows_self_loops: " ++ flagText s.selfLoops ++ ", expected_node_count: " ++
  (match s.expectedNodes with
    | none => "None"
    | some count => "Some(" ++ toString count ++ ")") ++
  " \x7d"

end Settings

end GraphViews
