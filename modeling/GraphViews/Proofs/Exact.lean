import Mathlib.Data.Nat.PSub
import GraphViews.Node.Atom
import GraphViews.Proofs.Reachable
import GraphViews.Proofs.Updates
/-!
# Taking away no more than there is

A graph subtracts in three places: the degree of an erased node from its count, one for an erased edge from its count,
and in a directed record one for a self-loop from what both sides hold. A difference of natural numbers stops at zero
and does not tell. Here the same subtractions are made so that there is no result below zero (`Nat.psub`), and
`Sound.run?_eq` says that no run ever misses a result or gets another one.
-/

namespace GraphViews

variable {ν : Type} [BEq ν] {d : EdgeKind}

namespace Neighborhood

/-- The number of edges at `x`, whose record this is, unless the self-loop is more than both sides hold. -/
def degree? (c : Neighborhood ν d) (x : ν) : Option Nat :=
  match c with
  | shared neighbors => some neighbors.size
  | split predecessors successors =>
    (predecessors.size + successors.size).psub (if successors.contains x then 1 else 0)

/-- A node that is listed is counted where it is listed, whatever the other side holds. -/
theorem correction_le (c : Neighborhood ν d) (x : ν) :
    (if c.successors.contains x then 1 else 0) ≤ c.predecessors.size + c.successors.size := by
  by_cases h : c.successors.contains x
  · have hpos : 0 < c.successors.size := ItemSet.size_pos_of_contains h
    rw [if_pos h]
    omega
  · rw [if_neg h]
    exact Nat.zero_le _

theorem degree?_eq (c : Neighborhood ν d) (x : ν) : c.degree? x = some (c.degree x) := by
  cases c with
  | shared neighbors => rfl
  | split predecessors successors => exact Nat.psub_eq_sub ((split predecessors successors).correction_le x)

end Neighborhood

namespace Graph

/-! ## Changes without a result below zero -/

/-- The graph without the node `x` and the edges at it, unless these are more than the count. -/
def withoutNode? (g : Graph ν d) (x : ν) : Option (Graph ν d) :=
  match g.records.find? x with
  | none => some g
  | some c => ((c.degree? x).bind g.edgeCount.psub).map fun n =>
    { g with records := detach g.records x c, edgeCount := n }

/-- The graph without the edge from `u` to `v`, unless it is there and the count is zero. -/
def withoutEdge? (g : Graph ν d) (u v : ν) : Option (Graph ν d) :=
  (if g.hasEdge u v then g.edgeCount.psub 1 else some g.edgeCount).map fun n =>
    { g.withoutEdge u v with edgeCount := n }

/-- The graph after an update, if every count has a result. -/
def update? (g : Graph ν d) : Update ν → Option (Graph ν d)
  | .addNode x => some (g.withNode x)
  | .addEdge u v => some (g.withEdge u v)
  | .dropNode x => g.withoutNode? x
  | .dropEdge u v => g.withoutEdge? u v

/-- The graph after a change, if every count has a result. A refused change counts nothing. -/
def change? (g : Graph ν d) (c : Change ν) : Option (Graph ν d) :=
  match c.update? d g.selfLoops with
  | none => some g
  | some u => g.update? u

/-- The graph after changes in order, if every count on the way has a result. -/
def run? (g : Graph ν d) (cs : List (Change ν)) : Option (Graph ν d) := cs.foldlM change? g

variable [EquivBEq ν] {g : Graph ν d}

namespace Sound

theorem degree_le_of_find? (hg : g.Sound) {x : ν} {c : Neighborhood ν d} (hx : g.records.find? x = some c) :
    c.degree x ≤ g.edgeCount := by
  have hle := hg.degree_le_edgeCount x
  unfold degree at hle
  rwa [hx] at hle

/-! ## No subtraction goes below zero -/

theorem withoutNode?_eq (hg : g.Sound) (x : ν) : g.withoutNode? x = some (g.withoutNode x) := by
  unfold withoutNode? Graph.withoutNode
  cases hx : g.records.find? x with
  | none => rfl
  | some c =>
    have hcount : g.edgeCount.psub (c.degree x) = some (g.edgeCount - c.degree x) :=
      Nat.psub_eq_sub (hg.degree_le_of_find? hx)
    simp only [c.degree?_eq, Option.bind_some, hcount, Option.map_some]

theorem withoutEdge?_eq (hg : g.Sound) (u v : ν) : g.withoutEdge? u v = some (g.withoutEdge u v) := by
  have hcount : (if g.hasEdge u v then g.edgeCount.psub 1 else some g.edgeCount) =
      some (g.withoutEdge u v).edgeCount := by
    unfold Graph.withoutEdge
    by_cases h : g.hasEdge u v
    · rw [if_pos h, if_pos h]
      exact Nat.psub_eq_sub (hg.edgeCount_pos h)
    · rw [if_neg h, if_neg h]
  rw [withoutEdge?, hcount]
  rfl

theorem change?_eq (hg : g.Sound) (c : Change ν) : g.change? c = some (g.change c).state := by
  rw [state_change, change?]
  cases c.update? d g.selfLoops with
  | none => rfl
  | some u =>
    cases u with
    | addNode x | addEdge u v => rfl
    | dropNode x => exact hg.withoutNode?_eq x
    | dropEdge u v => exact hg.withoutEdge?_eq u v

theorem run?_eq (hg : g.Sound) (cs : List (Change ν)) : g.run? cs = some (g.run cs).1 := by
  induction cs generalizing g with
  | nil => rfl
  | cons c cs ih =>
    have hcons : g.run? (c :: cs) = (g.change? c).bind (·.run? cs) := List.foldlM_cons
    rw [hcons, hg.change?_eq, Option.bind_some, ih (hg.change c)]
    rfl

end Sound

/-- Whatever is subtracted in the graph, or in a record, is there to be taken away. -/
structure NeverShort (g : Graph ν d) : Prop where
  /-- Erasing a node takes the degree of its record from the count. -/
  erasure : ∀ x c, g.records.find? x = some c → c.degree x ≤ g.edgeCount
  /-- Erasing an edge that is noted at its first end takes one from the count. -/
  removal : ∀ u v, g.hasEdge u v → 1 ≤ g.edgeCount
  /-- In a directed record, whatever was noted in it or struck out again on either side and for whatever node, a
  self-loop is taken off what both sides hold. -/
  correction : ∀ (c : Neighborhood ν .directed) (x : ν),
    (if c.successors.contains x then 1 else 0) ≤ c.predecessors.size + c.successors.size
  degree : ∀ (c : Neighborhood ν d) (x : ν), c.degree? x = some (c.degree x)
  change : ∀ c, g.change? c = some (g.change c).state
  run : ∀ cs, g.run? cs = some (g.run cs).1

/-- In every graph that changes lead to, in whatever order its records come up, no subtraction goes below zero, now or
in any run from there on; so subtracting exactly comes to the same. -/
theorem never_short (h : g.Reachable) : g.NeverShort where
  erasure _ _ := h.sound.degree_le_of_find?
  removal _ _ := h.sound.edgeCount_pos
  correction := Neighborhood.correction_le
  degree := Neighborhood.degree?_eq
  change := h.sound.change?_eq
  run := h.sound.run?_eq

/-- A node with a self-loop written in two ways and with edges both ways to another: erasing it takes away all edges
that there are. A refused change and removals that find nothing are on the way. -/
theorem never_short_mutual :
    let x : Node Atom := .pair (.unordered (.atom (.integer 1)) (.atom (.integer 2)))
    let x' : Node Atom := .pair (.unordered (.atom (.integer 2)) (.atom (.integer 1)))
    let y : Node Atom := .atom (.integer 3)
    let g : Graph (Node Atom) .directed :=
      ((empty .directed true).run [.insertEdge .checked x x', .insertEdge .checked y x', .insertEdge .checked x y]).1
    let cs : List (Change (Node Atom)) :=
      [.erasePair .checked (.unordered x y), .eraseEdge y y, .eraseNode x', .eraseNode x, .eraseEdge x y]
    g.Reachable ∧ g.degree x' = 3 ∧ g.edgeCount = 3 ∧ g.hasEdge y x ∧ 1 ≤ g.edgeCount ∧
      g.run? cs = some (g.run cs).1 ∧ (g.run cs).1.edgeCount = 0 := by
  intro x x' y g cs
  have hg : g.Reachable := ((Reachable.empty true).run _).1
  have hedge : g.hasEdge y x := by decide +kernel
  have hshort : g.NeverShort := never_short hg
  exact ⟨hg, by decide +kernel, by decide +kernel, hedge, hshort.removal y x hedge, hshort.run cs,
    by decide +kernel⟩

end Graph

end GraphViews
