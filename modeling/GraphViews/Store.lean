import GraphViews.ItemSet.Change
import GraphViews.Survey
import GraphViews.View.Cursor
/-!
# Many graphs and sets

A store holds any number of graphs and of stored sets, each under a number that it never loses. A view
refers to them by their numbers, so it lives as long as the store does, whatever names for its objects come
and go, and it is read against the store as it is at the moment.

`look_change_of_not_touchedBy` says that a change to one object shows only through the leaves that refer to
it.
-/

namespace GraphViews

/-! ## Kinds of sets -/

/-- A set holds nodes or edges. -/
inductive ItemKind where
  | node
  | edge
  deriving DecidableEq

/-- The items of a set of a kind. -/
abbrev ItemKind.Item (ν : Type) : ItemKind → Type
  | node => ν
  | edge => Ends ν

instance {ν : Type} [BEq ν] : (kind : ItemKind) → BEq (kind.Item ν)
  | .node => inferInstanceAs (BEq ν)
  | .edge => inferInstanceAs (BEq (Ends ν))

/-- A set that a view can be built from: a stored one, or one that a graph hands out. -/
inductive Leaf (ν : Type) : ItemKind → Type where
  | stored (kind : ItemKind) (id : Nat) : Leaf ν kind
  | nodes (graph : Nat) : Leaf ν .node
  | neighbors (graph : Nat) (side : Side) (x : ν) : Leaf ν .node
  | edges (graph : Nat) : Leaf ν .edge
  | incident (graph : Nat) (x : ν) : Leaf ν .edge

/-! ## Stores -/

/-- A graph, directed or not. -/
structure AnyGraph (ν : Type) [BEq ν] where
  edgeKind : EdgeKind
  graph : Graph ν edgeKind

namespace AnyGraph

variable {ν : Type} [BEq ν]

/-- Makes one change to the graph. -/
def change (g : AnyGraph ν) (c : Change ν) : Effect ν (AnyGraph ν) :=
  (g.graph.change c).map fun graph => ⟨g.edgeKind, graph⟩

/-- The survey of the graph. -/
def survey (g : AnyGraph ν) : Survey ν := g.graph.survey

end AnyGraph

/-- The graphs and the stored sets of either kind, each at its number. -/
structure Store (ν : Type) [BEq ν] where
  graphs : List (AnyGraph ν) := []
  nodeSets : List (ItemSet ν) := []
  edgeSets : List (ItemSet (Ends ν)) := []

/-- A change to one object of a store. -/
inductive Mutation (ν : Type) where
  | graph (id : Nat) (c : Change ν)
  | set (kind : ItemKind) (id : Nat) (c : SetChange (kind.Item ν))

/-- Whether the mutation adds to its object. The others remove. -/
def Mutation.inserts {ν : Type} : Mutation ν → Bool
  | graph _ c => c.inserts
  | set _ _ c => c.inserts

/-- Whether a leaf refers to the object that a mutation changes. -/
def Leaf.touchedBy {ν : Type} {kind : ItemKind} : Leaf ν kind → Mutation ν → Bool
  | stored kind id, .set kind' id' _ => kind == kind' && id == id'
  | nodes g, .graph id _ => g == id
  | neighbors g _ _, .graph id _ => g == id
  | edges g, .graph id _ => g == id
  | incident g _, .graph id _ => g == id
  | _, _ => false

namespace Store

variable {ν : Type} [BEq ν]

/-- The stored sets of a kind. -/
def sets (s : Store ν) : (kind : ItemKind) → List (ItemSet (kind.Item ν))
  | .node => s.nodeSets
  | .edge => s.edgeSets

/-! ### Adding objects -/

/-- The store with one more graph, whose number is the number of graphs before. -/
def addGraph (s : Store ν) (g : AnyGraph ν) : Store ν := { s with graphs := s.graphs ++ [g] }

/-- The store with one more stored set, whose number is the number of sets of its kind before. -/
def addSet (s : Store ν) : {kind : ItemKind} → ItemSet (kind.Item ν) → Store ν
  | .node, set => { s with nodeSets := s.nodeSets ++ [set] }
  | .edge, set => { s with edgeSets := s.edgeSets ++ [set] }

/-! ### Changing objects -/

/-- The store with a graph in place of the one at a number. -/
def setGraph (s : Store ν) (id : Nat) (g : AnyGraph ν) : Store ν := { s with graphs := s.graphs.set id g }

/-- The store with a set in place of the one at a number. -/
def setSet (s : Store ν) (id : Nat) : {kind : ItemKind} → ItemSet (kind.Item ν) → Store ν
  | .node, set => { s with nodeSets := s.nodeSets.set id set }
  | .edge, set => { s with edgeSets := s.edgeSets.set id set }

/-- Makes one mutation; nothing happens if there is no such object. -/
def change (s : Store ν) : Mutation ν → Store ν
  | .graph id c =>
    match s.graphs[id]? with
    | none => s
    | some g => s.setGraph id (g.change c).state
  | .set kind id c =>
    match (s.sets kind)[id]? with
    | none => s
    | some set => s.setSet id (set.change c).2

/-! ### Reading views -/

/-- What a leaf answers now. -/
def look (s : Store ν) : {kind : ItemKind} → Leaf ν kind → Reading (kind.Item ν)
  | _, .stored kind id => (((s.sets kind)[id]?).map (·.reading)).getD .empty
  | _, .nodes id => ((s.graphs[id]?).map (·.graph.nodes)).getD .empty
  | _, .neighbors id side x => ((s.graphs[id]?).map (·.graph.neighbors side x)).getD .empty
  | _, .edges id => ((s.graphs[id]?).map (·.graph.edges)).getD .empty
  | _, .incident id x => ((s.graphs[id]?).map (·.graph.incident x)).getD .empty

/-- What a view answers now. -/
def read (s : Store ν) {kind : ItemKind} (v : View (Leaf ν kind)) : Reading (kind.Item ν) := v.read s.look

/-- The items of a view, collected by going through it at once. -/
def collect (s : Store ν) {kind : ItemKind} (v : View (Leaf ν kind)) : List (kind.Item ν) :=
  Cursor.drain s.look (Cursor.start s.look v)

@[simp] theorem graphs_setSet (s : Store ν) (id : Nat) {kind : ItemKind} (set : ItemSet (kind.Item ν)) :
    (s.setSet id set).graphs = s.graphs := by
  cases kind <;> rfl

@[simp] theorem sets_setGraph (s : Store ν) (id : Nat) (g : AnyGraph ν) (kind : ItemKind) :
    (s.setGraph id g).sets kind = s.sets kind := by
  cases kind <;> rfl

theorem sets_setSet_of_ne (s : Store ν) {id id' : Nat} {kind kind' : ItemKind} (set : ItemSet (kind'.Item ν))
    (h : ¬(kind = kind' ∧ id = id')) : ((s.setSet id' set).sets kind)[id]? = (s.sets kind)[id]? := by
  cases kind <;> cases kind' <;> simp_all [setSet, sets]
  all_goals exact List.getElem?_set_ne (Ne.symm h)

theorem getElem?_setGraph_of_ne (s : Store ν) {id id' : Nat} (g : AnyGraph ν) (h : id ≠ id') :
    (s.setGraph id' g).graphs[id]? = s.graphs[id]? :=
  List.getElem?_set_ne (Ne.symm h)

/-- A mutation shows only through the leaves that refer to the object it changes. -/
theorem look_change_of_not_touchedBy (s : Store ν) (m : Mutation ν) {kind : ItemKind} (l : Leaf ν kind)
    (h : l.touchedBy m = false) : (s.change m).look l = s.look l := by
  cases m with
  | graph id c =>
    simp only [change]
    split
    · rfl
    · cases l <;> simp_all [look, Leaf.touchedBy, getElem?_setGraph_of_ne]
  | set kind' id c =>
    simp only [change]
    split
    · rfl
    · cases l <;> simp_all [look, Leaf.touchedBy]
      rw [sets_setSet_of_ne]
      simpa using h

end Store

end GraphViews
