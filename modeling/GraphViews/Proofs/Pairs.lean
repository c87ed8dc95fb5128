import GraphViews.EdgeKind
/-!
# Equal pairs

What equal pairs have in common: their kind, the nodes that are ends of them, and whether they are self-loops.
The pair that names an edge is an ordered or an unordered one, so "the same edge" is equality of pairs for
graphs of both kinds.
-/

namespace GraphViews

namespace Ends

variable {ν : Type}

@[simp] theorem fst_ordered (s t : ν) : (ordered s t).fst = s := rfl
@[simp] theorem snd_ordered (s t : ν) : (ordered s t).snd = t := rfl
@[simp] theorem fst_unordered (u v : ν) : (unordered u v).fst = u := rfl
@[simp] theorem snd_unordered (u v : ν) : (unordered u v).snd = v := rfl
@[simp] theorem isOrdered_ordered (s t : ν) : (ordered s t).isOrdered = true := rfl
@[simp] theorem isOrdered_unordered (u v : ν) : (unordered u v).isOrdered = false := rfl

variable [BEq ν]

/-- Whether the two ends are equal. -/
def isLoop (p : Ends ν) : Bool := p.fst == p.snd

theorem isOrdered_congr {p q : Ends ν} (h : p == q) : p.isOrdered = q.isOrdered := by
  cases p <;> cases q <;> simp_all

/-- Equal pairs have equal ends, in the same order or in the other. -/
theorem fst_snd_of_beq {p q : Ends ν} (h : p == q) :
    (p.fst == q.fst ∧ p.snd == q.snd) ∨ (p.fst == q.snd ∧ p.snd == q.fst) := by
  cases p <;> cases q <;> simp_all [ordered_beq, unordered_beq]

variable [EquivBEq ν]

theorem contains_congr {p q : Ends ν} (h : p == q) {x y : ν} (hxy : x == y) : p.contains x = q.contains y := by
  simp only [contains, BEq.congr_right hxy]
  rcases fst_snd_of_beq h with ⟨hf, hs⟩ | ⟨hf, hs⟩
  · rw [BEq.congr_left hf, BEq.congr_left hs]
  · rw [BEq.congr_left hf, BEq.congr_left hs, Bool.or_comm]

theorem isLoop_congr {p q : Ends ν} (h : p == q) : p.isLoop = q.isLoop := by
  unfold isLoop
  rcases fst_snd_of_beq h with ⟨hf, hs⟩ | ⟨hf, hs⟩
  · rw [BEq.congr_left hf, BEq.congr_right hs]
  · rw [BEq.congr_left hf, BEq.congr_right hs, BEq.comm]

end Ends

namespace EdgeKind

variable {ν : Type} (d : EdgeKind)

@[simp] theorem isDirected_directed : directed.isDirected = true := rfl
@[simp] theorem isDirected_undirected : undirected.isDirected = false := rfl
@[simp] theorem fst_edge (u v : ν) : (d.edge u v).fst = u := by cases d <;> rfl
@[simp] theorem snd_edge (u v : ν) : (d.edge u v).snd = v := by cases d <;> rfl
@[simp] theorem admits_edge (u v : ν) : d.admits (d.edge u v) = true := by simp [admits]

variable [BEq ν]

theorem admits_congr {p q : Ends ν} (h : p == q) : d.admits p = d.admits q := by
  rw [admits, admits, Ends.isOrdered_congr h]

/-- The pair of an edge equals only pairs of the kind that names edges. -/
theorem edge_beq (u v : ν) (p : Ends ν) : (d.edge u v == p) = (d.admits p && d.edge u v == d.edge p.fst p.snd) := by
  cases d <;> cases p <;> simp [edge, admits]

theorem edge_beq_edge (u v a b : ν) :
    (d.edge u v == d.edge a b) = ((u == a && v == b) || (!d.isDirected && u == b && v == a)) := by
  cases d <;> simp [edge, Ends.ordered_beq, Ends.unordered_beq]

/-- Edges out of one node are equal if their targets are. -/
theorem edge_beq_edge_right [EquivBEq ν] (x y z : ν) : (d.edge x y == d.edge x z) = (y == z) := by
  rw [edge_beq_edge, BEq.rfl, Bool.true_and, Bool.or_eq_left_iff_imp]
  intro h
  simp only [Bool.and_eq_true] at h
  exact BEq.trans h.2 h.1.2

/-- Edges into one node are equal if their sources are. -/
theorem edge_beq_edge_left [EquivBEq ν] (x y z : ν) : (d.edge y x == d.edge z x) = (y == z) := by
  rw [edge_beq_edge, BEq.rfl, Bool.and_true, Bool.or_eq_left_iff_imp]
  intro h
  simp only [Bool.and_eq_true] at h
  exact BEq.trans h.1.2 h.2

/-- The self-loop at a node, however its two ends are written. -/
theorem beq_edge_self [EquivBEq ν] (p : Ends ν) (x : ν) :
    (p == d.edge x x) = (d.admits p && (p.fst == x && p.snd == x)) := by
  rw [BEq.comm, edge_beq, edge_beq_edge, BEq.comm (a := x) (b := p.fst), BEq.comm (a := x) (b := p.snd)]
  cases p.fst == x <;> cases p.snd == x <;> simp

/-- Equal edges are both self-loops or both not. -/
theorem loop_congr [EquivBEq ν] {d : EdgeKind} {u v a b : ν} (h : d.edge u v == d.edge a b) : (u == v) = (a == b) := by
  have hloop := Ends.isLoop_congr h
  rwa [Ends.isLoop, Ends.isLoop, fst_edge, snd_edge, fst_edge, snd_edge] at hloop

/-- Equal pairs name the same edge. -/
theorem edge_fst_snd_congr {d : EdgeKind} {p q : Ends ν} (h : p == q) (hq : d.admits q) :
    d.edge p.fst p.snd == d.edge q.fst q.snd := by
  rwa [edge_fst_snd hq, edge_fst_snd (by rwa [d.admits_congr h])]

end EdgeKind

end GraphViews
