import GraphViews.Node.Atom
import GraphViews.Proofs.BothWays
/-!
# Degrees add up

A node and an edge at it are a pair that can be counted by nodes or by edges (`total_countP_comm`). By nodes the pairs
come to the sum of the degrees. By edges there are two for each edge, one for a self-loop, because the ends of an edge
are nodes of the graph. The same with one end only gives the sums of the degrees inward and outward.
-/

namespace GraphViews

/-! ## Sums -/

/-- The sum of `f` over a list. -/
def total {α : Type} (f : α → Nat) (xs : List α) : Nat := xs.foldr (fun x n => f x + n) 0

section
variable {α γ : Type}

theorem total_cons (f : α → Nat) (x : α) (xs : List α) : total f (x :: xs) = f x + total f xs := rfl

theorem total_congr {f g : α → Nat} {xs : List α} (h : ∀ x ∈ xs, f x = g x) : total f xs = total g xs := by
  induction xs with
  | nil => rfl
  | cons x xs ih =>
    obtain ⟨hx, hxs⟩ := List.forall_mem_cons.1 h
    rw [total_cons, total_cons, hx, ih hxs]

theorem total_const (n : Nat) (xs : List α) : total (fun _ => n) xs = n * xs.length := by
  induction xs with
  | nil => rfl
  | cons x xs ih => rw [total_cons, ih, List.length_cons, Nat.mul_succ, Nat.add_comm]

/-- Adding one for each item with a property adds their number. -/
theorem total_add_countP (f : α → Nat) (p : α → Bool) (xs : List α) :
    total (fun x => f x + if p x then 1 else 0) xs = total f xs + xs.countP p := by
  induction xs with
  | nil => rfl
  | cons x xs ih =>
    rw [total_cons, total_cons, ih, List.countP_cons]
    omega

/-- Related pairs can be counted from either side. -/
theorem total_countP_comm (r : α → γ → Bool) (xs : List α) (ys : List γ) :
    total (fun x => ys.countP (r x)) xs = total (fun y => xs.countP (r · y)) ys := by
  induction xs with
  | nil => exact ((total_const 0 ys).trans (Nat.zero_mul _)).symm
  | cons x xs ih =>
    simp only [List.countP_cons, total_add_countP, total_cons, ih]
    exact Nat.add_comm _ _

end

/-! ## The ends of an edge -/

namespace Ends

variable {ν : Type} [BEq ν]

/-- Whether the pair is an edge out of `x`, with a direction. -/
def leaves (p : Ends ν) (x : ν) : Bool := p.isOrdered && p.fst == x

/-- Whether the pair is an edge into `x`, with a direction. -/
def enters (p : Ends ν) (x : ν) : Bool := p.isOrdered && p.snd == x

variable [EquivBEq ν]

theorem leaves_congr {p q : Ends ν} (h : p == q) (x : ν) : p.leaves x = q.leaves x := by
  cases p <;> cases q <;> simp_all only [leaves, ordered_beq, unordered_beq_ordered, ordered_beq_unordered,
    Bool.and_eq_true, Bool.false_eq_true, isOrdered_unordered, fst_ordered, Bool.false_and, isOrdered_ordered]
  rw [BEq.congr_left h.1]

theorem enters_congr {p q : Ends ν} (h : p == q) (x : ν) : p.enters x = q.enters x := by
  cases p <;> cases q <;> simp_all [enters, ordered_beq]
  rw [BEq.congr_left h.2]

/-- An edge has two ends, unless it is a self-loop. -/
theorem hasCount_contains (p : Ends ν) : HasCount p.contains (if p.isLoop then 1 else 2) := by
  by_cases hl : p.isLoop
  · rw [if_pos hl]
    refine (HasCount.single p.fst).congr fun x => ?_
    have hends : (p.snd == x) = (p.fst == x) := BEq.congr_left (BEq.symm hl)
    rw [contains, hends, Bool.or_self]
  · rw [if_neg hl]
    refine (HasCount.single p.fst).or (.single p.snd) fun x hf => ?_
    rw [Bool.eq_false_iff]
    intro hs
    exact hl (BEq.trans hf (BEq.symm hs))

end Ends

namespace Graph

variable {ν : Type} [BEq ν] {d : EdgeKind}

/-- Whether `y` is both a predecessor and a successor of `x`. -/
def isMutual (g : Graph ν d) (x y : ν) : Bool :=
  (g.neighbors .predecessors x).contains y && (g.neighbors .successors x).contains y

theorem inDegree_undirected (g : Graph ν .undirected) (x : ν) : g.inDegree x = g.outDegree x := by
  simp only [inDegree, outDegree, Neighborhood.predecessors_eq_successors]

theorem size_adjacent_undirected (g : Graph ν .undirected) (x : ν) :
    (g.neighbors .adjacent x).size = g.outDegree x := by
  unfold neighbors outDegree
  cases g.records.find? x with
  | none => rfl
  | some c => cases c; rfl

variable {g : Graph ν d}

theorem Sound.hasNode_of_hasPair (hg : g.Sound) {p : Ends ν} (h : g.hasPair p) : g.hasNode p.fst ∧ g.hasNode p.snd :=
  hg.hasNode_of_hasEdge (Bool.and_eq_true_iff.1 h).2

/-- What is counted by edges at each node is summed up over the nodes by what each edge adds. -/
theorem total_nodes {f : ν → Nat} {r : Ends ν → ν → Bool} (hf : ∀ x, f x = g.edges.items.countP (r · x)) :
    total f g.nodes.items = total (fun p => g.nodes.items.countP (r p)) g.edges.items := by
  rw [← total_countP_comm fun x p => r p x]
  exact total_congr fun x _ => hf x

variable [EquivBEq ν]

namespace Sound

/-! ## Edges at a node -/

/-- The degree counts the edges of the graph that have the node as an end. -/
theorem degree_eq_countP (hg : g.Sound) (x : ν) : g.degree x = g.edges.items.countP (·.contains x) :=
  (hg.hasCount_at x).unique (hg.lawful_edges.hasCount_and fun h => Ends.contains_congr h BEq.rfl)

/-- A set of nodes is as large as the set of the edges that lead to them, one to each. -/
theorem size_eq_countP (hg : g.Sound) {r : Reading ν} (hr : r.Lawful) {edge : ν → Ends ν}
    (hedge : ∀ y z, (edge y == edge z) = (y == z)) {p : Ends ν → Bool} (hp : ∀ {q q'}, q == q' → p q = p q')
    (hc : ∀ q, (r.items.map edge).contains q = (g.hasPair q && p q)) : r.size = g.edges.items.countP p := by
  have hdistinct : Distinct (r.items.map edge) :=
    List.pairwise_map.2 (hr.distinct.imp fun {y z} hyz => (hedge y z).trans hyz)
  rw [hr.size_eq, ← List.length_map edge]
  exact (HasCount.of_distinct hdistinct hc).unique (hg.lawful_edges.hasCount_and hp)

theorem inDegree_eq_countP {g : Graph ν .directed} (hg : g.Sound) (x : ν) :
    g.inDegree x = g.edges.items.countP (·.enters x) := by
  have hlaw := g.lawful_neighbors .predecessors x
  have hedge : ∀ y z, (Ends.ordered y x == .ordered z x) = (y == z) := EdgeKind.directed.edge_beq_edge_left x
  rw [← survey_inDegree]
  refine hg.size_eq_countP hlaw hedge (Ends.enters_congr · x) fun p => ?_
  rw [Neighborhood.elem_map_ordered_left, ← hlaw.contains_eq, contains_predecessors, hg.returned, hasPair,
    EdgeKind.admits, Ends.enters]
  by_cases hx : p.snd == x
  · rw [Graph.hasEdge_congr g BEq.rfl hx]
    cases p.isOrdered <;> simp [hx]
  · simp [hx]

theorem outDegree_eq_countP {g : Graph ν .directed} (hg : g.Sound) (x : ν) :
    g.outDegree x = g.edges.items.countP (·.leaves x) := by
  have hlaw := g.lawful_neighbors .successors x
  have hedge : ∀ y z, (Ends.ordered x y == .ordered x z) = (y == z) := EdgeKind.directed.edge_beq_edge_right x
  rw [← survey_outDegree]
  refine hg.size_eq_countP hlaw hedge (Ends.leaves_congr · x) fun p => ?_
  rw [Neighborhood.elem_map_ordered_right, ← hlaw.contains_eq, contains_successors, hasPair, EdgeKind.admits,
    Ends.leaves]
  by_cases hx : p.fst == x
  · rw [Graph.hasEdge_congr g hx BEq.rfl]
    cases p.isOrdered <;> simp [hx]
  · simp [hx]

/-! ## Nodes at an edge -/

theorem hasPair_of_mem_edges (hg : g.Sound) {p : Ends ν} (hp : p ∈ g.edges.items) : g.hasPair p :=
  hg.lawful_edges.contains_of_mem hp

theorem isOrdered_of_mem_edges {g : Graph ν .directed} (hg : g.Sound) {p : Ends ν} (hp : p ∈ g.edges.items) :
    p.isOrdered := by
  simpa [EdgeKind.admits] using (Bool.and_eq_true_iff.1 (hg.hasPair_of_mem_edges hp)).1

/-- The nodes of the graph that equal a given one are one node. -/
theorem countP_nodes_beq {x : ν} (hx : g.hasNode x) : g.nodes.items.countP (x == ·) = 1 := by
  refine (g.lawful_nodes.hasCount_and fun h => BEq.congr_right h).unique ((HasCount.single x).congr fun y => ?_)
  change (g.hasNode y && x == y) = (x == y)
  rw [Bool.and_eq_right_iff_imp]
  intro hxy
  rwa [← g.hasNode_congr hxy]

/-- The ends of an edge are nodes of the graph: two of them, or one for a self-loop. -/
theorem countP_nodes_contains (hg : g.Sound) {p : Ends ν} (hp : g.hasPair p) :
    g.nodes.items.countP p.contains = if p.isLoop then 1 else 2 := by
  obtain ⟨hfst, hsnd⟩ := hg.hasNode_of_hasPair hp
  refine (g.lawful_nodes.hasCount_and fun h => Ends.contains_congr BEq.rfl h).unique
    (p.hasCount_contains.congr fun x => ?_)
  change (g.hasNode x && p.contains x) = p.contains x
  rw [Bool.and_eq_right_iff_imp, Ends.contains, Bool.or_eq_true]
  rintro (hx | hx)
  · rwa [← g.hasNode_congr hx]
  · rwa [← g.hasNode_congr hx]

/-! ## Sums of degrees -/

theorem total_degree (hg : g.Sound) :
    total g.degree g.nodes.items + g.edges.items.countP Ends.isLoop = 2 * g.edges.size := by
  have hends : ∀ p ∈ g.edges.items, g.nodes.items.countP p.contains + (if p.isLoop then 1 else 0) = 2 := by
    intro p hp
    rw [hg.countP_nodes_contains (hg.hasPair_of_mem_edges hp)]
    split <;> rfl
  rw [total_nodes hg.degree_eq_countP, ← total_add_countP, total_congr hends, total_const, hg.lawful_edges.size_eq]

/-- Where each edge is counted at one node, the sum over the nodes is the number of edges. -/
theorem total_of_one_end (hg : g.Sound) {f : ν → Nat} {r : Ends ν → ν → Bool}
    (hf : ∀ x, f x = g.edges.items.countP (r · x))
    (hr : ∀ p ∈ g.edges.items, ∃ y, g.hasNode y ∧ ∀ x, r p x = (y == x)) : total f g.nodes.items = g.edges.size := by
  have hone : ∀ p ∈ g.edges.items, g.nodes.items.countP (r p) = 1 := by
    intro p hp
    obtain ⟨y, hy, hry⟩ := hr p hp
    rw [funext hry]
    exact countP_nodes_beq hy
  rw [total_nodes hf, total_congr hone, total_const, Nat.one_mul, hg.lawful_edges.size_eq]

theorem total_inDegree {g : Graph ν .directed} (hg : g.Sound) : total g.inDegree g.nodes.items = g.edges.size := by
  refine hg.total_of_one_end hg.inDegree_eq_countP fun p hp => ?_
  refine ⟨p.snd, (hg.hasNode_of_hasPair (hg.hasPair_of_mem_edges hp)).2, fun x => ?_⟩
  rw [Ends.enters, hg.isOrdered_of_mem_edges hp, Bool.true_and]

theorem total_outDegree {g : Graph ν .directed} (hg : g.Sound) : total g.outDegree g.nodes.items = g.edges.size := by
  refine hg.total_of_one_end hg.outDegree_eq_countP fun p hp => ?_
  refine ⟨p.fst, (hg.hasNode_of_hasPair (hg.hasPair_of_mem_edges hp)).1, fun x => ?_⟩
  rw [Ends.leaves, hg.isOrdered_of_mem_edges hp, Bool.true_and]

/-- The adjacent nodes are the predecessors and the successors, less those that are both. -/
theorem size_adjacent_add (hg : g.Sound) (x : ν) :
    (g.neighbors .adjacent x).size + g.nodes.items.countP (g.isMutual x) = g.inDegree x + g.outDegree x := by
  have hpred := (g.lawful_neighbors .predecessors x).hasCount
  have hsucc := (g.lawful_neighbors .successors x).hasCount
  have hmutual : HasCount (g.isMutual x) (g.nodes.items.countP (g.isMutual x)) := by
    refine (g.lawful_nodes.hasCount_and fun h => ?_).congr fun y => ?_
    · rw [isMutual, isMutual, hpred.eq_of_beq h, hsucc.eq_of_beq h]
    · change g.isMutual x y = (g.hasNode y && g.isMutual x y)
      rw [eq_comm, Bool.and_eq_right_iff_imp]
      intro hy
      have hedge : g.hasEdge x y := by
        rw [← contains_successors]
        exact (Bool.and_eq_true_iff.1 hy).2
      exact (hg.hasNode_of_hasEdge hedge).2
  have hsub : ∀ y, g.isMutual x y → (g.neighbors .successors x).contains y := fun y hy => (Bool.and_eq_true_iff.1 hy).2
  have hle : g.nodes.items.countP (g.isMutual x) ≤ (g.neighbors .successors x).size := hmutual.le hsucc hsub
  -- The successors that are no predecessors are what the adjacent nodes have besides the predecessors.
  have hadj : (g.neighbors .adjacent x).size = (g.neighbors .predecessors x).size +
      ((g.neighbors .successors x).size - g.nodes.items.countP (g.isMutual x)) := by
    refine (g.lawful_neighbors .adjacent x).hasCount.unique
      ((hpred.or (hsucc.sub hmutual hsub) fun y hy => ?_).congr fun y => ?_)
    · simp [isMutual, hy]
    · rw [contains_adjacent, ← contains_predecessors, ← contains_successors, isMutual]
      cases (g.neighbors .predecessors x).contains y <;> simp
  rw [← survey_inDegree, ← survey_outDegree]
  change _ = (g.neighbors .predecessors x).size + (g.neighbors .successors x).size
  omega

end Sound

/-! ## The whole account -/

/-- Every edge is at its two ends, a self-loop at its one, and so the degrees add up to twice the number of edges, less
the self-loops. With directions every edge goes out of one node and into one node. -/
structure DegreesAddUp (g : Graph ν d) : Prop where
  ends : ∀ p, g.edges.contains p →
    (g.nodes.items.countP fun x => (g.incident x).contains p) = if p.isLoop then 1 else 2
  degrees : total g.degree g.nodes.items + g.edges.items.countP Ends.isLoop = 2 * g.edges.size
  halfDegrees : d = .directed →
    total g.inDegree g.nodes.items = g.edges.size ∧ total g.outDegree g.nodes.items = g.edges.size
  directed : d = .directed → ∀ x,
    g.degree x + (if g.hasEdge x x then 1 else 0) = g.inDegree x + g.outDegree x ∧
    (g.neighbors .adjacent x).size + g.nodes.items.countP (g.isMutual x) = g.inDegree x + g.outDegree x
  undirected : d = .undirected → ∀ x,
    g.degree x = g.inDegree x ∧ g.degree x = g.outDegree x ∧ g.degree x = (g.neighbors .adjacent x).size

/-- In every graph that changes lead to, in whatever order its records come up, the degrees add up. -/
theorem degrees_add_up (h : g.Reachable) : g.DegreesAddUp := by
  have hg : g.Sound := h.sound
  have hends : ∀ p, g.edges.contains p →
      (g.nodes.items.countP fun x => (g.incident x).contains p) = if p.isLoop then 1 else 2 := by
    intro p hp
    have hpair : g.hasPair p := hp
    simp only [hg.contains_incident, hpair, Bool.true_and]
    exact hg.countP_nodes_contains hpair
  refine ⟨hends, hg.total_degree, ?_, ?_, ?_⟩
  · rintro rfl
    exact ⟨hg.total_inDegree, hg.total_outDegree⟩
  · rintro rfl x
    exact ⟨g.degree_directed_add x, hg.size_adjacent_add x⟩
  · rintro rfl x
    rw [inDegree_undirected, size_adjacent_undirected]
    exact ⟨g.degree_undirected x, g.degree_undirected x, g.degree_undirected x⟩

/-- Two nodes with edges both ways between them, a self-loop written in two ways at one of them and another edge. -/
theorem degrees_add_up_loop :
    let x : Node Atom := .pair (.unordered (.atom (.integer 1)) (.atom (.integer 2)))
    let x' : Node Atom := .pair (.unordered (.atom (.integer 2)) (.atom (.integer 1)))
    let y : Node Atom := .atom (.integer 3)
    let z : Node Atom := .atom (.integer 4)
    let g : Graph (Node Atom) .directed := ((empty .directed true).run [.insertEdge .checked x x',
      .insertEdge .checked y x', .insertEdge .checked x y, .insertEdge .checked y z]).1
    g.DegreesAddUp ∧ g.edges.size = 4 ∧ total g.degree g.nodes.items = 7 ∧ g.degree x' = 3 ∧ g.inDegree x' = 2 ∧
      g.outDegree x' = 2 ∧ (g.neighbors .adjacent x').size = 2 := by
  intro x x' y z g
  have hg : g.Reachable := ((Reachable.empty true).run _).1
  exact ⟨degrees_add_up hg, by decide +kernel⟩

end Graph

end GraphViews
