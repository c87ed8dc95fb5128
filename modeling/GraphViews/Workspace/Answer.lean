import GraphViews.Event
import GraphViews.Graph.Check
import GraphViews.Node.Atom
/-!
# Answers

What a workspace answers to a command. Wherever an answer lists items of a set, they are sorted.
-/

namespace GraphViews

/-- Why a command makes no sense in a workspace. -/
inductive Misuse where
  | unknownGraph (name : String)
  | unknownSet (name : String)
  /-- A set that is not stored was to be changed. -/
  | notStored (name : String)
  /-- A node was used with a set of edges, or sets of different kinds were to be united. -/
  | wrongKind (name : String)
  /-- The parts of a set that is no union were asked for. -/
  | notAUnion (name : String)

/-- What a probe of a set found. -/
structure Probe where
  size : Nat
  isEmpty : Bool
  items : List (Node Atom)
  contains : List Bool

/-- The items of a union: those of its first operand and the rest. -/
structure UnionParts where
  first : List (Node Atom)
  rest : List (Node Atom)

/-- The contents of a graph. -/
structure Contents where
  nodes : List (Node Atom)
  edges : List (Ends (Node Atom))
  /-- The size of the edge set. -/
  edgeCount : Nat

/-- All about one node of a graph. -/
structure Row where
  node : Node Atom
  degree : Nat
  inDegree : Nat
  outDegree : Nat
  adjacent : List (Node Atom)
  predecessors : List (Node Atom)
  successors : List (Node Atom)
  incident : List (Ends (Node Atom))
  adjacentSize : Nat
  incidentSize : Nat

/-- The answer to a command. -/
inductive Answer where
  | done
  | flag (b : Bool)
  | count (n : Nat)
  | degrees (degree inDegree outDegree : Nat)
  | text (s : String)
  | items (xs : List (Node Atom))
  | refused (failure : Failure (Node Atom))
  | inconsistent (fault : Inconsistency)
  | probed (probe : Probe)
  | parted (parts : UnionParts)
  /-- A union without a name: its size, whether it is empty, and its parts. -/
  | united (size : Nat) (isEmpty : Bool) (parts : UnionParts)
  /-- A graph just made: whether it is directed, whether it allows self-loops, and its number of nodes. -/
  | made (isDirected selfLoops : Bool) (nodes : Nat)
  | contents (contents : Contents)
  | byNode (contents : Contents) (rows : List Row)
  /-- A change to a graph: its answer and the numbers of nodes and edges after it. -/
  | changed (answer : Except (Failure (Node Atom)) Bool) (nodes edges : Nat)
  | changedInBulk (answers : List (Except (Failure (Node Atom)) Bool)) (nodes edges : Nat)
  /-- A change to a set: whether it changed, if the change tells, and its size after it. -/
  | resized (changed : Option Bool) (size : Nat)
  /-- An iteration held open: the items drawn at first, the answers and journals of the commands inside,
  and the items drawn at the end. -/
  | held (drawn : List (Node Atom)) (inner : List (Answer × List (Event (Node Atom)))) (rest : List (Node Atom))
  | misused (misuse : Misuse)

/-- An answer with what the command noted in the journal. -/
abbrev Report := Answer × List (Event (Node Atom))

end GraphViews
