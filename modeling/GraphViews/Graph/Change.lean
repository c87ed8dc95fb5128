import GraphViews.Event
import GraphViews.Graph
/-!
# Changing a graph

The changes that a graph takes, as data, so that a history of a graph is a list of them. Making a change
checks it, tells what came of it and notes it in the journal. A change that is refused leaves the graph as
it is.
-/

namespace GraphViews

/-- One change to a graph. Those that can be refused say how they report it. -/
inductive Change (ν : Type) where
  | insertNode (x : ν)
  | eraseNode (x : ν)
  | insertEdge (strictness : Strictness) (u v : ν)
  | eraseEdge (u v : ν)
  /-- Inserts the edge that a pair names. -/
  | insertPair (strictness : Strictness) (p : Ends ν)
  /-- Erases the edge that a pair names. -/
  | erasePair (strictness : Strictness) (p : Ends ν)

/-- Whether the change adds to a graph. The others remove. -/
def Change.inserts {ν : Type} : Change ν → Bool
  | insertNode _ | insertEdge _ _ _ | insertPair _ _ => true
  | eraseNode _ | eraseEdge _ _ | erasePair _ _ => false

/-- What came of a change to a `γ`: the answer, the state after it and the entries for the journal. The
answer tells whether anything changed. -/
structure Effect (ν γ : Type) where
  answer : Except (Failure ν) Bool
  state : γ
  events : List (Event ν)

/-- The same effect, with the state seen in another way. -/
def Effect.map {ν γ δ : Type} (f : γ → δ) (e : Effect ν γ) : Effect ν δ :=
  ⟨e.answer, f e.state, e.events⟩

namespace Graph

variable {ν : Type} [BEq ν] {d : EdgeKind}

/-- Checks that an edge from `u` to `v` is not a self-loop that the graph refuses. -/
def allowsEdge (g : Graph ν d) (u v : ν) : Except (Violation ν) Unit :=
  if !g.selfLoops && u == v then .error (.selfLoop u) else .ok ()

/-- The effect of a refused change. An asserted one notes the violation in the journal. -/
def refuse (g : Graph ν d) (strictness : Strictness) (violation : Violation ν) : Effect ν (Graph ν d) where
  answer := .error ⟨strictness, violation⟩
  state := g
  events :=
    match strictness with
    | .checked => []
    | .asserted => [.violated violation]

/-- Inserts a node without edges, unless the graph has it. -/
def insertNode (g : Graph ν d) (x : ν) : Effect ν (Graph ν d) where
  answer := .ok (!g.hasNode x)
  state := g.withNode x
  events := if g.hasNode x then [] else [.nodeInserted x]

/-- Erases a node and the edges at it. -/
def eraseNode (g : Graph ν d) (x : ν) : Effect ν (Graph ν d) where
  answer := .ok (g.hasNode x)
  state := g.withoutNode x
  events := .erasureEntered :: ((if g.hasNode x then [.nodeErased x (g.degree x)] else []) ++ [.erasureLeft])

/-- Inserts the edge from `u` to `v`, with the ends that are missing. -/
def insertEdge (g : Graph ν d) (strictness : Strictness) (u v : ν) : Effect ν (Graph ν d) :=
  match g.allowsEdge u v with
  | .error violation => g.refuse strictness violation
  | .ok () =>
    { answer := .ok (!g.hasEdge u v), state := g.withEdge u v, events := [.edgeInserted u v (!g.hasEdge u v)] }

/-- Erases the edge from `u` to `v`. -/
def eraseEdge (g : Graph ν d) (u v : ν) : Effect ν (Graph ν d) where
  answer := .ok (g.hasEdge u v)
  state := g.withoutEdge u v
  events := if g.hasEdge u v then [.edgeErased u v] else []

/-- Makes one change. A pair is checked for its kind before anything else. -/
def change (g : Graph ν d) : Change ν → Effect ν (Graph ν d)
  | .insertNode x => g.insertNode x
  | .eraseNode x => g.eraseNode x
  | .insertEdge strictness u v => g.insertEdge strictness u v
  | .eraseEdge u v => g.eraseEdge u v
  | .insertPair strictness p =>
    match d.validate p with
    | .error violation => g.refuse strictness violation
    | .ok () => g.insertEdge strictness p.fst p.snd
  | .erasePair strictness p =>
    match d.validate p with
    | .error violation => g.refuse strictness violation
    | .ok () => g.eraseEdge p.fst p.snd

/-- Makes the changes in order; gives the graph after the last and each one's effect. -/
def run (g : Graph ν d) : List (Change ν) → Graph ν d × List (Effect ν (Graph ν d))
  | [] => (g, [])
  | c :: cs =>
    let effect := g.change c
    let (last, effects) := run effect.state cs
    (last, effect :: effects)

end Graph

end GraphViews
