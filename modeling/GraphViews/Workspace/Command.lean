import GraphViews.Node.Atom
import GraphViews.Settings
import GraphViews.Store
/-!
# Commands

What one can ask of a workspace, in which graphs and sets have names. A command that holds an iteration
open over a set has commands inside it, so a command is a tree.
-/

namespace GraphViews

/-- Which answers of a graph to take: those it gives from its records, or those that its sets give. -/
inductive Route where
  | records
  | sets
  deriving DecidableEq

/-- A question about one graph. -/
inductive GraphQuestion (ν : Type) where
  | isDirected
  | selfLoops
  | degree (x : ν)
  | inDegree (x : ν)
  | outDegree (x : ν)
  /-- The three degrees at once. -/
  | degrees (x : ν)
  | hasEdge (u v : ν)
  | hasPair (p : Ends ν)
  /-- Whether a pair is of the kind that names edges of the graph. -/
  | admits (p : Ends ν)
  | validate (p : Ends ν)
  | plainText

/-- A set that a graph hands out. -/
inductive GraphSet (ν : Type) where
  | nodes
  | edges
  | neighbors (side : Side) (x : ν)
  | incident (x : ν)

/-- A question about one set. -/
inductive SetQuestion (α : Type) where
  | size
  | isEmpty
  | contains (x : α)
  | items
  | plainText
  | quotedText
  /-- All of it at once: the size, whether it is empty, the items, and which of `xs` it contains. -/
  | probe (xs : List α)
  /-- The items of a union: those of its first operand and the rest. -/
  | parts

/-- A question to a workspace, which changes nothing. -/
inductive Question where
  | compareGraphs (a b : String)
  | graph (name : String) (route : Route) (question : GraphQuestion (Node Atom))
  | graphQuoted (name : String)
  | check (graph : String)
  /-- The nodes and edges of a graph. -/
  | contents (graph : String)
  /-- The nodes and edges of a graph, and all about each node. -/
  | byNode (graph : String)
  | set (name : String) (question : SetQuestion (Node Atom))
  /-- The union of two sets, read without giving it a name. -/
  | unionNow (a b : String)
  | compareSets (a b : String)
  /-- Compares two sets either of which may be missing. -/
  | comparePresent (a b : Option String)

/-- An action on a workspace. Whatever gets a name takes it from its former owner. -/
inductive Action where
  | newGraph (name : String) (d : EdgeKind) (settings : Settings d)
  | copyGraph (name source : String)
  /-- Makes an empty graph like another one, with some settings changed. -/
  | likeGraph (name source : String) (selfLoops : Option Bool) (expected : Option Nat)
  | dropGraph (name : String)
  | changeGraph (name : String) (c : Change (Node Atom))
  | changeGraphInBulk (name : String) (cs : List (Change (Node Atom)))
  | newSet (name : String) (kind : ItemKind) (items : List (Node Atom))
  | viewGraph (name graph : String) (part : GraphSet (Node Atom))
  | protect (name source : String)
  | unite (name a b : String)
  /-- Makes an independent copy of a stored set, or another handle to a view. -/
  | copySet (name source : String)
  | dropSet (name : String)
  | changeSet (name : String) (c : SetChange (Node Atom))

/-- One command to a workspace. -/
inductive Command where
  | ask (question : Question)
  | act (action : Action)
  /-- Starts going through a set, draws some items, runs the commands inside, and draws the rest. -/
  | hold (name : String) (draws : Nat) (body : List Command)

end GraphViews
