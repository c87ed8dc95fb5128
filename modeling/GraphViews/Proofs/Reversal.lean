import GraphViews.Proofs.Alike
/-!
# A directed graph and its reverse

Take the changes that are made of a directed graph, and turn around every edge that they name. Made of a second
graph, they get the same answers, and that graph has the edges of the first turned around. A graph does not treat the
two ends of an edge alike: whether an edge is new it asks the source only, and a self-loop it looks for among the
successors only. So the reason is again the shape: turning a shape around commutes with every step of it
(`Shape.step_reversed`), and both graphs follow their shapes (`Sound.fits_change`).
-/

namespace GraphViews

/-! ## Turning edges around -/

section
variable {ν : Type}

/-- The edge in the other direction. A pair without direction stays as it is. -/
def Ends.reversed : Ends ν → Ends ν
  | ordered s t => ordered t s
  | unordered u v => unordered u v

theorem Ends.isOrdered_reversed (p : Ends ν) : p.reversed.isOrdered = p.isOrdered := by
  cases p <;> rfl

theorem Ends.fst_reversed {p : Ends ν} (h : p.isOrdered) : p.reversed.fst = p.snd := by
  cases p with
  | ordered s t => rfl
  | unordered u v => cases h

theorem Ends.snd_reversed {p : Ends ν} (h : p.isOrdered) : p.reversed.snd = p.fst := by
  cases p with
  | ordered s t => rfl
  | unordered u v => cases h

theorem EdgeKind.admits_reversed (d : EdgeKind) (p : Ends ν) : d.admits p.reversed = d.admits p := by
  rw [admits, admits, Ends.isOrdered_reversed]

theorem EdgeKind.isOrdered_of_admits {p : Ends ν} (h : directed.admits p) : p.isOrdered := by
  simpa [admits] using h

/-- The same change, about the edge in the other direction. -/
def Change.reversed : Change ν → Change ν
  | insertNode x => insertNode x
  | eraseNode x => eraseNode x
  | insertEdge s u v => insertEdge s v u
  | eraseEdge u v => eraseEdge v u
  | insertPair s p => insertPair s p.reversed
  | erasePair s p => erasePair s p.reversed

end

variable {ν : Type} [BEq ν]

theorem Ends.contains_reversed (p : Ends ν) (x : ν) : p.reversed.contains x = p.contains x := by
  cases p with
  | ordered s t => exact Bool.or_comm _ _
  | unordered u v => rfl

theorem Ends.beq_reversed (p q : Ends ν) : (p == q.reversed) = (p.reversed == q) := by
  cases p <;> cases q
  · exact Bool.and_comm _ _
  all_goals rfl

theorem EdgeKind.goes_reversed (u v a b : ν) : directed.goes v u b a = directed.goes u v a b := by
  simp [goes, Bool.and_comm]

theorem elem_map_reversed (ps : List (Ends ν)) (q : Ends ν) :
    (ps.map Ends.reversed).contains q = ps.contains q.reversed := by
  simp only [List.contains_eq_any_beq, List.any_map, Function.comp_def, Ends.beq_reversed q]

/-- Two sets of pairs, the second with the pairs of the first turned around. -/
structure Reading.Reversed (r s : Reading (Ends ν)) : Prop where
  contains : ∀ {p q}, p.reversed == q → r.contains p = s.contains q
  size : r.size = s.size
  items : ∀ q, s.items.contains q = (r.items.map Ends.reversed).contains q

variable [EquivBEq ν]

theorem Reading.Lawful.reversed {r s : Reading (Ends ν)} (hr : r.Lawful) (hs : s.Lawful)
    (h : ∀ p, r.contains p = s.contains p.reversed) : r.Reversed s where
  contains {p q} hpq := by rw [h, hs.contains_congr hpq]
  size := by
    -- Different pairs stay different when they are turned around, so the turned list counts the second set.
    have hmap : HasCount s.contains (r.items.map Ends.reversed).length := by
      refine .of_distinct ?_ fun q => ?_
      · refine List.pairwise_map.2 (hr.distinct.imp fun {p q} hpq => ?_)
        rw [← hpq, ← Ends.beq_reversed]
        cases q <;> rfl
      · rw [elem_map_reversed, ← hr.contains_eq, h]
        cases q <;> rfl
    rw [hr.size_eq, hs.hasCount.unique hmap, List.length_map]
  items q := by
    rw [elem_map_reversed, ← hr.contains_eq, h, ← hs.contains_eq]
    cases q <;> rfl

/-! ## Shapes -/

namespace Shape

/-- The same nodes, and every pair turned around. -/
def reversed (A : Shape ν .directed) : Shape ν .directed where
  nodes := A.nodes
  edges u v := A.edges v u
  nodes_congr := A.nodes_congr
  edges_congr hu hv := A.edges_congr hv hu
  edges_swap h := by cases h
  ends_of_edge h := (A.ends_of_edge h).symm

theorem putEdge_reversed (A : Shape ν .directed) (u v : ν) : A.reversed.putEdge v u = (A.putEdge u v).reversed := by
  apply Shape.ext
  · funext x
    simp only [putEdge, reversed, Bool.or_comm (u == x)]
  · funext a b
    simp only [putEdge, reversed, EdgeKind.goes_reversed u v b a]

theorem removeEdge_reversed (A : Shape ν .directed) (u v : ν) :
    A.reversed.removeEdge v u = (A.removeEdge u v).reversed := by
  apply Shape.ext
  · rfl
  · funext a b
    simp only [removeEdge, reversed, EdgeKind.goes_reversed u v b a]

theorem removeNode_reversed (A : Shape ν .directed) (x : ν) : A.reversed.removeNode x = (A.removeNode x).reversed := by
  apply Shape.ext
  · rfl
  · funext a b
    simp only [removeNode, reversed, Bool.or_comm (x == a)]

theorem insertEdge_reversed (selfLoops : Bool) (A : Shape ν .directed) (u v : ν) :
    A.reversed.insertEdge selfLoops v u = ((A.insertEdge selfLoops u v).1, (A.insertEdge selfLoops u v).2.reversed) := by
  unfold insertEdge
  rw [BEq.comm (a := v), putEdge_reversed]
  split <;> rfl

theorem step_reversed (selfLoops : Bool) (A : Shape ν .directed) (c : Change ν) :
    A.reversed.step selfLoops c.reversed = ((A.step selfLoops c).1, (A.step selfLoops c).2.reversed) := by
  cases c with
  | insertNode x => rfl
  | eraseNode x => exact congrArg _ (A.removeNode_reversed x)
  | insertEdge s u v => exact A.insertEdge_reversed selfLoops u v
  | eraseEdge u v => exact congrArg _ (A.removeEdge_reversed u v)
  | insertPair s p =>
    simp only [Change.reversed, step, EdgeKind.admits_reversed]
    split
    · have hp := EdgeKind.isOrdered_of_admits ‹_›
      rw [Ends.fst_reversed hp, Ends.snd_reversed hp, insertEdge_reversed]
    · rfl
  | erasePair s p =>
    simp only [Change.reversed, step, EdgeKind.admits_reversed]
    split
    · have hp := EdgeKind.isOrdered_of_admits ‹_›
      rw [Ends.fst_reversed hp, Ends.snd_reversed hp, removeEdge_reversed]
      rfl
    · rfl

end Shape

/-! ## Graphs -/

/-- The second graph has the nodes of the first, and its edges in the other direction. -/
structure Graph.Converse (a b : Graph ν .directed) : Prop where
  selfLoops : a.selfLoops = b.selfLoops
  nodes : ∀ x, a.hasNode x = b.hasNode x
  edges : ∀ u v, a.hasEdge u v = b.hasEdge v u

/-- What a graph and its converse hand out, asked about equal nodes. -/
structure Graph.Transposed (a b : Graph ν .directed) : Prop where
  nodes : a.nodes.Alike b.nodes
  predecessors : ∀ {x y}, x == y → (a.neighbors .predecessors x).Alike (b.neighbors .successors y)
  successors : ∀ {x y}, x == y → (a.neighbors .successors x).Alike (b.neighbors .predecessors y)
  adjacent : ∀ {x y}, x == y → (a.neighbors .adjacent x).Alike (b.neighbors .adjacent y)
  inDegree : ∀ {x y}, x == y → a.inDegree x = b.outDegree y
  outDegree : ∀ {x y}, x == y → a.outDegree x = b.inDegree y
  degree : ∀ {x y}, x == y → a.degree x = b.degree y
  edges : a.edges.Reversed b.edges
  incident : ∀ {x y}, x == y → (a.incident x).Reversed (b.incident y)

/-- The effects of a change and of the reversed change on a graph and its converse. -/
structure Effect.Transposed (e e' : Effect ν (Graph ν .directed)) : Prop where
  answer : SameAnswer Failure.Alike e.answer e'.answer
  state : e.state.Transposed e'.state

namespace Graph

variable {a b : Graph ν .directed} {A : Shape ν .directed}

/-! ### In step -/

theorem Converse.insertEdge (h : a.Converse b) (s : Strictness) (u v : ν) :
    SameAnswer Failure.Alike (a.insertEdge s u v).answer (b.insertEdge s v u).answer := by
  rw [insertEdge_eq, insertEdge_eq, h.selfLoops, BEq.comm (a := v)]
  by_cases hl : (!b.selfLoops && u == v) = true
  · rw [if_pos hl, if_pos hl]
    exact .error ⟨rfl, .selfLoop (Bool.and_eq_true_iff.1 hl).2⟩
  · rw [if_neg hl, if_neg hl, h.edges]
    exact .ok _

theorem Converse.answer (h : a.Converse b) (c : Change ν) :
    SameAnswer Failure.Alike (a.change c).answer (b.change c.reversed).answer := by
  cases c with
  | insertNode x =>
    rw [Change.reversed, change, change, Graph.insertNode, Graph.insertNode, h.nodes]
    exact .ok _
  | eraseNode x =>
    rw [Change.reversed, change, change, Graph.eraseNode, Graph.eraseNode, h.nodes]
    exact .ok _
  | insertEdge s u v => exact h.insertEdge s u v
  | eraseEdge u v =>
    rw [Change.reversed, change, change, Graph.eraseEdge, Graph.eraseEdge, h.edges]
    exact .ok _
  | insertPair s p =>
    rw [Change.reversed, change_insertPair, change_insertPair, EdgeKind.admits_reversed]
    split
    · have hp := EdgeKind.isOrdered_of_admits ‹_›
      rw [Ends.fst_reversed hp, Ends.snd_reversed hp]
      exact h.insertEdge s p.fst p.snd
    · exact .error ⟨rfl, .wrongKind (by cases p <;> simp_all [EdgeKind.admits, Ends.reversed])⟩
  | erasePair s p =>
    rw [Change.reversed, change_erasePair, change_erasePair, EdgeKind.admits_reversed]
    split
    · have hp := EdgeKind.isOrdered_of_admits ‹_›
      rw [Ends.fst_reversed hp, Ends.snd_reversed hp, Graph.eraseEdge, Graph.eraseEdge, h.edges]
      exact .ok _
    · exact .error ⟨rfl, .wrongKind (by cases p <;> simp_all [EdgeKind.admits, Ends.reversed])⟩

/-- A change keeps a graph the converse of another on which the reversed change is made. -/
theorem Converse.change (h : a.Converse b) (ha : a.Sound) (hb : b.Sound) (c : Change ν) :
    (a.change c).state.Converse (b.change c.reversed).state := by
  -- Both graphs follow the shape of the first, the second one its reverse.
  have fb : b.Fits ha.shape.reversed := ⟨fun x => (h.nodes x).symm, fun u v => (h.edges v u).symm⟩
  obtain ⟨-, fa'⟩ := ha.fits_change ha.fits_shape c
  obtain ⟨-, fb'⟩ := hb.fits_change fb c.reversed
  rw [Shape.step_reversed, ← h.selfLoops] at fb'
  refine ⟨?_, fun x => ?_, fun u v => ?_⟩
  · rw [selfLoops_change, selfLoops_change, h.selfLoops]
  · rw [fa'.nodes, fb'.nodes]
    rfl
  · rw [fa'.edges, fb'.edges]
    rfl

/-! ### What the two hand out -/

theorem Converse.transposed (h : a.Converse b) (ha : a.Sound) (hb : b.Sound) : a.Transposed b := by
  have hedge : ∀ {x y}, x == y → ∀ z, a.hasEdge x z = b.hasEdge z y ∧ a.hasEdge z x = b.hasEdge y z := by
    intro x y hxy z
    rw [h.edges, h.edges]
    exact ⟨b.hasEdge_congr BEq.rfl hxy, b.hasEdge_congr hxy BEq.rfl⟩
  have hpredecessors : ∀ {x y}, x == y → (a.neighbors .predecessors x).Alike (b.neighbors .successors y) := by
    intro x y hxy
    apply (a.lawful_neighbors _ x).alike (b.lawful_neighbors _ y)
    intro z
    rw [contains_predecessors, contains_successors, ha.returned, (hedge hxy z).2]
  have hsuccessors : ∀ {x y}, x == y → (a.neighbors .successors x).Alike (b.neighbors .predecessors y) := by
    intro x y hxy
    apply (a.lawful_neighbors _ x).alike (b.lawful_neighbors _ y)
    intro z
    rw [contains_predecessors, contains_successors, hb.returned, (hedge hxy z).1]
  have hadjacent : ∀ {x y}, x == y → (a.neighbors .adjacent x).Alike (b.neighbors .adjacent y) := by
    intro x y hxy
    apply (a.lawful_neighbors _ x).alike (b.lawful_neighbors _ y)
    intro z
    rw [contains_adjacent, contains_adjacent, ha.returned, hb.returned, (hedge hxy z).1, (hedge hxy z).2, Bool.or_comm]
  have hpair : ∀ p, a.hasPair p = b.hasPair p.reversed := by
    intro p
    cases p with
    | ordered s t => exact h.edges s t
    | unordered u v => rfl
  have hincident : ∀ {x y}, x == y → (a.incident x).Reversed (b.incident y) := by
    intro x y hxy
    apply (ha.lawful_incident x).reversed (hb.lawful_incident y)
    intro p
    rw [ha.contains_incident, hb.contains_incident, hpair, Ends.contains_reversed, Ends.contains_congr (BEq.refl p) hxy]
  exact {
    nodes := a.lawful_nodes.alike b.lawful_nodes h.nodes
    predecessors := hpredecessors
    successors := hsuccessors
    adjacent := hadjacent
    inDegree := fun hxy => by
      rw [← survey_inDegree, ← survey_outDegree]
      exact (hpredecessors hxy).size
    outDegree := fun hxy => by
      rw [← survey_inDegree, ← survey_outDegree]
      exact (hsuccessors hxy).size
    degree := fun hxy => (hincident hxy).size
    edges := ha.lawful_edges.reversed hb.lawful_edges hpair
    incident := hincident }

/-! ### Runs -/

/-- Make some changes of a directed graph, and the reversed changes of a graph with the same nodes and the reversed
edges; two empty graphs are such graphs. Every step gets the same answer or the same kind of error on both, and after
it the second graph is again the first with its edges turned around, in everything that it hands out. -/
theorem reversed_run (ha : a.Reachable) (hb : b.Reachable) (h : a.Converse b) (cs : List (Change ν)) :
    a.Transposed b ∧ List.Forall₂ Effect.Transposed (a.run cs).2 (b.run (cs.map Change.reversed)).2 := by
  refine ⟨h.transposed ha.sound hb.sound, ?_⟩
  induction cs generalizing a b with
  | nil => exact .nil
  | cons c cs ih =>
    have h' : (a.change c).state.Converse (b.change c.reversed).state := h.change ha.sound hb.sound c
    have ha' := ha.change c
    have hb' := hb.change c.reversed
    exact .cons ⟨h.answer c, h'.transposed ha'.sound hb'.sound⟩ (ih ha' hb' h')

/-- Two empty graphs; a self-loop whose ends are written differently, an edge in each direction between its node and
another, one that is there already, a pair that names no edge, and the node with the self-loop erased. -/
theorem reversed_run_loop :
    let x : Node Atom := .pair (.unordered (.atom (.integer 1)) (.atom (.integer 2)))
    let x' : Node Atom := .pair (.unordered (.atom (.integer 2)) (.atom (.integer 1)))
    let y : Node Atom := .atom (.integer 3)
    let cs : List (Change (Node Atom)) := [.insertEdge .checked x x', .insertEdge .checked y x,
      .insertPair .checked (.ordered x' y), .insertPair .checked (.ordered x x), .erasePair .checked (.unordered x y),
      .eraseNode x']
    let g : Graph (Node Atom) .directed := empty .directed true
    List.Forall₂ Effect.Transposed (g.run cs).2 (g.run (cs.map Change.reversed)).2 ∧
      (g.run cs).2.map (·.answer.toOption) = [some true, some true, some true, some false, none, some true] ∧
      (g.run cs).2.map (·.state.degree x) = [1, 2, 3, 3, 3, 0] := by
  intro x x' y cs g
  have hg : g.Converse g := ⟨rfl, fun _ => rfl, fun _ _ => rfl⟩
  exact ⟨(reversed_run (.empty true) (.empty true) hg cs).2, by decide +kernel, by decide +kernel⟩

end Graph

end GraphViews
