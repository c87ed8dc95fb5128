import GraphViews.Neighborhood
import GraphViews.ItemSet.Lemmas
/-!
# What the changes to a record do

A change on one side of a record leaves the other side of a directed node as it is. An undirected node has
one set for both sides, so there a change on either side changes both.
-/

namespace GraphViews.Neighborhood

variable {ν : Type} [BEq ν] {d : EdgeKind}

@[simp] theorem predecessors_empty (d : EdgeKind) : (empty d : Neighborhood ν d).predecessors = .empty := by
  cases d <;> rfl

@[simp] theorem successors_empty (d : EdgeKind) : (empty d : Neighborhood ν d).successors = .empty := by
  cases d <;> rfl

/-- In an undirected graph every neighbor is on both sides. -/
theorem predecessors_eq_successors (c : Neighborhood ν .undirected) : c.predecessors = c.successors := by
  cases c
  rfl

@[simp] theorem successors_insertSuccessor (c : Neighborhood ν d) (x : ν) :
    (c.insertSuccessor x).successors = c.successors.insert x := by
  cases c <;> rfl

@[simp] theorem predecessors_insertPredecessor (c : Neighborhood ν d) (x : ν) :
    (c.insertPredecessor x).predecessors = c.predecessors.insert x := by
  cases c <;> rfl

theorem predecessors_insertSuccessor (c : Neighborhood ν d) (x : ν) :
    (c.insertSuccessor x).predecessors = if d.isDirected then c.predecessors else c.predecessors.insert x := by
  cases c <;> rfl

theorem successors_insertPredecessor (c : Neighborhood ν d) (x : ν) :
    (c.insertPredecessor x).successors = if d.isDirected then c.successors else c.successors.insert x := by
  cases c <;> rfl

@[simp] theorem successors_eraseSuccessor (c : Neighborhood ν d) (x : ν) :
    (c.eraseSuccessor x).successors = c.successors.erase x := by
  cases c <;> rfl

@[simp] theorem predecessors_erasePredecessor (c : Neighborhood ν d) (x : ν) :
    (c.erasePredecessor x).predecessors = c.predecessors.erase x := by
  cases c <;> rfl

theorem predecessors_eraseSuccessor (c : Neighborhood ν d) (x : ν) :
    (c.eraseSuccessor x).predecessors = if d.isDirected then c.predecessors else c.predecessors.erase x := by
  cases c <;> rfl

theorem successors_erasePredecessor (c : Neighborhood ν d) (x : ν) :
    (c.erasePredecessor x).successors = if d.isDirected then c.successors else c.successors.erase x := by
  cases c <;> rfl

/-- A neighbor on either side is adjacent, and nothing else is. -/
theorem contains_adjacent (c : Neighborhood ν d) (x : ν) :
    c.adjacent.contains x = (c.predecessors.contains x || c.successors.contains x) := by
  cases c
  · simp [adjacent, predecessors, successors, ItemSet.reading]
  · rfl

end GraphViews.Neighborhood
