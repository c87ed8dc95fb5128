import GraphViews.Proofs.Alike
/-!
# An undirected graph as a directed one

Make the changes of an undirected graph on a directed graph, but insert and erase every edge both ways. The two
graphs stay in step (`Mirrors.change`), though one keeps a single set of neighbors for each node and the other two,
and so every set and every number that they hand out for a node is the same, or twice as large less the self-loops
(`doubled_run`).
-/

namespace GraphViews

/-! ## Changes made both ways -/

/-- The same two ends, as a pair of the other kind. -/
def Ends.turned {ν : Type} : Ends ν → Ends ν
  | ordered s t => unordered s t
  | unordered u v => ordered u v

/-- The changes of a directed graph that stand for a change of an undirected one. The pair of an edge is turned into
one of the other kind. -/
def Change.bothWays {ν : Type} : Change ν → List (Change ν)
  | insertNode x => [insertNode x]
  | eraseNode x => [eraseNode x]
  | insertEdge s u v => [insertEdge s u v, insertEdge s v u]
  | eraseEdge u v => [eraseEdge u v, eraseEdge v u]
  | insertPair s p => [insertPair s p.turned, insertPair s p.turned.swap]
  | erasePair s p => [erasePair s p.turned, erasePair s p.turned.swap]

/-- The same violation, about a pair of the other kind. -/
def Violation.turned {ν : Type} : Violation ν → Violation ν
  | unordered => unordered
  | notAnEnd pair node => notAnEnd pair.turned node
  | selfLoop node => selfLoop node
  | wrongKind pair => wrongKind pair.turned

def Failure.turned {ν : Type} (f : Failure ν) : Failure ν := ⟨f.strictness, f.violation.turned⟩

namespace Graph

variable {ν : Type} [BEq ν]

/-! ## Degrees -/

theorem degree_undirected (U : Graph ν .undirected) (x : ν) : U.degree x = U.outDegree x := by
  unfold degree outDegree
  cases U.records.find? x with
  | none => rfl
  | some c => cases c; rfl

theorem degree_directed_add (D : Graph ν .directed) (x : ν) :
    D.degree x + (if D.hasEdge x x then 1 else 0) = D.inDegree x + D.outDegree x := by
  unfold degree inDegree outDegree hasEdge
  cases D.records.find? x with
  | none => rfl
  | some c =>
    cases c with
    | split predecessors successors =>
      simp only [Option.map_some, Option.getD_some, Option.any_some, Neighborhood.degree, Neighborhood.predecessors,
        Neighborhood.successors]
      by_cases hx : successors.contains x
      · have := ItemSet.size_pos_of_contains hx
        simp only [hx, if_true]
        omega
      · simp [hx]

/-! ## Graphs in step -/

/-- The two graphs have the same nodes and the same edges from node to node, and one policy. -/
structure Mirrors (U : Graph ν .undirected) (D : Graph ν .directed) : Prop where
  selfLoops : U.selfLoops = D.selfLoops
  nodes : ∀ x, U.hasNode x = D.hasNode x
  edges : ∀ u v, U.hasEdge u v = D.hasEdge u v

/-- Whichever set of neighbors is asked, and of whichever graph. -/
theorem Mirrors.contains_neighbors {U : Graph ν .undirected} {D : Graph ν .directed} (h : U.Mirrors D)
    (hU : U.Sound) (hD : D.Sound) (side : Side) (x y : ν) :
    (U.neighbors side x).contains y = U.hasEdge x y ∧ (D.neighbors side x).contains y = U.hasEdge x y := by
  have hswap : U.hasEdge y x = U.hasEdge x y := by rw [← hasBackEdge_undirected, hU.returned]
  constructor
  · cases side with
    | adjacent => rw [contains_adjacent, hU.returned, hswap, Bool.or_self]
    | predecessors => rw [contains_predecessors, hU.returned, hswap]
    | successors => rw [contains_successors]
  · cases side with
    | adjacent => rw [contains_adjacent, hD.returned, ← h.edges, ← h.edges, hswap, Bool.or_self]
    | predecessors => rw [contains_predecessors, hD.returned, ← h.edges, hswap]
    | successors => rw [contains_successors, h.edges]

variable [EquivBEq ν] {U : Graph ν .undirected} {D : Graph ν .directed}

namespace Mirrors

theorem withNode (h : U.Mirrors D) (x : ν) : (U.withNode x).Mirrors (D.withNode x) where
  selfLoops := h.selfLoops
  nodes y := by rw [hasNode_withNode, hasNode_withNode, h.nodes]
  edges u v := by rw [hasEdge_withNode, hasEdge_withNode, h.edges]

theorem withoutNode (h : U.Mirrors D) (hU : U.Sound) (hD : D.Sound) (x : ν) :
    (U.withoutNode x).Mirrors (D.withoutNode x) where
  selfLoops := by rw [selfLoops_withoutNode, selfLoops_withoutNode, h.selfLoops]
  nodes y := by rw [hasNode_withoutNode hU.returned, hasNode_withoutNode hD.returned, h.nodes]
  edges u v := by rw [hasEdge_withoutNode hU.returned, hasEdge_withoutNode hD.returned, h.edges]

theorem withEdge (h : U.Mirrors D) (u v : ν) : (U.withEdge u v).Mirrors ((D.withEdge u v).withEdge v u) where
  selfLoops := h.selfLoops
  nodes x := by
    rw [hasNode_withEdge, hasNode_withEdge, hasNode_withEdge, h.nodes]
    cases u == x <;> cases v == x <;> rfl
  edges a b := by
    rw [hasEdge_withEdge, hasEdge_withEdge, hasEdge_withEdge, h.edges, EdgeKind.edge_beq_edge, EdgeKind.edge_beq_edge,
      EdgeKind.edge_beq_edge]
    cases u == a <;> cases v == b <;> cases u == b <;> cases v == a <;> cases D.hasEdge a b <;> rfl

theorem withoutEdge (h : U.Mirrors D) (u v : ν) :
    (U.withoutEdge u v).Mirrors ((D.withoutEdge u v).withoutEdge v u) where
  selfLoops := h.selfLoops
  nodes x := by rw [hasNode_withoutEdge, hasNode_withoutEdge, hasNode_withoutEdge, h.nodes]
  edges a b := by
    rw [hasEdge_withoutEdge, hasEdge_withoutEdge, hasEdge_withoutEdge, h.edges, EdgeKind.edge_beq_edge,
      EdgeKind.edge_beq_edge, EdgeKind.edge_beq_edge]
    cases u == a <;> cases v == b <;> cases u == b <;> cases v == a <;> cases D.hasEdge a b <;> rfl

theorem insertEdge (h : U.Mirrors D) (s : Strictness) (u v : ν) :
    (U.insertEdge s u v).state.Mirrors ((D.insertEdge s u v).state.insertEdge s v u).state ∧
      (D.insertEdge s u v).answer = (U.insertEdge s u v).answer.mapError Failure.turned := by
  rw [insertEdge_eq U, insertEdge_eq D, h.selfLoops]
  by_cases hl : (!D.selfLoops && u == v) = true
  · rw [if_pos hl, if_pos hl]
    refine ⟨?_, rfl⟩
    rw [insertEdge_eq, if_pos (by rwa [BEq.comm])]
    exact h
  · rw [if_neg hl, if_neg hl]
    refine ⟨?_, by rw [h.edges]; rfl⟩
    rw [insertEdge_eq, if_neg (by rwa [BEq.comm])]
    exact h.withEdge u v

/-- A change, made both ways, keeps the graphs in step, and its first half gets the same answer. -/
theorem change (h : U.Mirrors D) (hU : U.Sound) (hD : D.Sound) (c : Change ν) :
    (U.change c).state.Mirrors (D.run c.bothWays).1 ∧
      ((D.run c.bothWays).2.map (·.answer)).head? = some ((U.change c).answer.mapError Failure.turned) := by
  cases c with
  | insertNode x =>
    refine ⟨h.withNode x, congrArg some ?_⟩
    rw [Graph.change, Graph.change, insertNode, insertNode, h.nodes]
    rfl
  | eraseNode x =>
    refine ⟨h.withoutNode hU hD x, congrArg some ?_⟩
    rw [Graph.change, Graph.change, eraseNode, eraseNode, h.nodes]
    rfl
  | insertEdge s u v =>
    obtain ⟨hstate, hanswer⟩ := h.insertEdge s u v
    exact ⟨hstate, congrArg some hanswer⟩
  | eraseEdge u v =>
    refine ⟨h.withoutEdge u v, congrArg some ?_⟩
    rw [Graph.change, Graph.change, eraseEdge, eraseEdge, h.edges]
    rfl
  | insertPair s p =>
    cases p with
    | ordered x y => exact ⟨h, rfl⟩
    | unordered u v =>
      obtain ⟨hstate, hanswer⟩ := h.insertEdge s u v
      exact ⟨hstate, congrArg some hanswer⟩
  | erasePair s p =>
    cases p with
    | ordered x y => exact ⟨h, rfl⟩
    | unordered u v =>
      refine ⟨h.withoutEdge u v, congrArg some ?_⟩
      change (D.eraseEdge u v).answer = (U.eraseEdge u v).answer.mapError Failure.turned
      rw [eraseEdge, eraseEdge, h.edges]
      rfl

/-- A run, every change of it made both ways, keeps the graphs in step. -/
theorem run (h : U.Mirrors D) (hU : U.Reachable) (hD : D.Reachable) (cs : List (Change ν)) :
    (U.run cs).1.Mirrors (D.run (cs.flatMap Change.bothWays)).1 := by
  induction cs generalizing U D with
  | nil => exact h
  | cons c cs ih =>
    rw [List.flatMap_cons, fst_run_append]
    exact ih (h.change hU.sound hD.sound c).1 (hU.change c) (hD.run c.bothWays).1

/-! ## What graphs in step hand out -/

/-- The arcs of a directed graph, which are its edges, are those of the undirected graph. -/
theorem length_arcs (h : U.Mirrors D) (hD : D.Sound) : D.edges.size = U.arcs.length := by
  have hitems : D.edges.items = D.arcs := rfl
  rw [hD.lawful_edges.size_eq, hitems]
  refine D.distinct_arcs.length_eq U.distinct_arcs fun p => ?_
  rw [elem_arcs, elem_arcs, h.edges]

end Mirrors

/-- Every direction of a self-loop is one, and no direction of another edge. -/
theorem countP_flatMap_directions (ps : List (Ends ν)) :
    (ps.flatMap directions).countP Ends.isLoop = ps.countP Ends.isLoop := by
  induction ps with
  | nil => rfl
  | cons p ps ih =>
    have hp : (directions p).countP Ends.isLoop = if p.isLoop then 1 else 0 := by
      unfold directions
      by_cases hl : p.isLoop
      · have hl' : (p.fst == p.snd) = true := hl
        simp [Ends.isLoop, hl']
      · have hl' : (p.fst == p.snd) = false := by simpa [Ends.isLoop] using hl
        have hl'' : (p.snd == p.fst) = false := by rw [BEq.comm, hl']
        simp [Ends.isLoop, hl', hl'']
    rw [List.flatMap_cons, List.countP_append, hp, ih, List.countP_cons]
    omega

/-- An undirected edge has two arcs, a self-loop one. -/
theorem Sound.length_arcs_add (hU : U.Sound) : U.arcs.length + U.edges.items.countP Ends.isLoop = 2 * U.edges.size := by
  have hlen : (U.edges.items.flatMap directions).length = U.arcs.length :=
    (distinct_flatMap_directions hU.returned).length_eq U.distinct_arcs (elem_flatMap_directions hU.returned)
  have htwo := length_flatMap_directions U.edges.items
  rw [countP_flatMap_directions] at htwo
  rw [hU.lawful_edges.size_eq, ← hlen, htwo]

/-- The directed graph has every edge of the undirected one twice, once in each direction, and a self-loop once. -/
structure DoubledBy (U : Graph ν .undirected) (D : Graph ν .directed) : Prop where
  nodes : U.nodes.Alike D.nodes
  neighbors : ∀ side side' x, (U.neighbors side x).Alike (D.neighbors side' x)
  halfDegrees : ∀ x, U.degree x = D.inDegree x ∧ U.degree x = D.outDegree x
  hasEdge : ∀ u v, U.hasEdge u v = D.hasEdge u v
  degree : ∀ x, D.degree x + (if U.hasEdge x x then 1 else 0) = 2 * U.degree x
  edges : D.edges.size + U.edges.items.countP Ends.isLoop = 2 * U.edges.size

theorem Mirrors.alike_neighbors (h : U.Mirrors D) (hU : U.Sound) (hD : D.Sound) (side side' : Side) (x : ν) :
    (U.neighbors side x).Alike (D.neighbors side' x) := by
  refine (U.lawful_neighbors side x).alike (D.lawful_neighbors side' x) fun y => ?_
  rw [(h.contains_neighbors hU hD side x y).1, (h.contains_neighbors hU hD side' x y).2]

theorem Mirrors.halfDegrees (h : U.Mirrors D) (hU : U.Sound) (hD : D.Sound) (x : ν) :
    U.degree x = D.inDegree x ∧ U.degree x = D.outDegree x := by
  rw [degree_undirected, ← survey_outDegree, ← survey_outDegree, ← survey_inDegree]
  constructor
  · exact (h.alike_neighbors hU hD .successors .predecessors x).size
  · exact (h.alike_neighbors hU hD .successors .successors x).size

theorem Mirrors.doubledBy (h : U.Mirrors D) (hU : U.Sound) (hD : D.Sound) : U.DoubledBy D where
  nodes := U.lawful_nodes.alike D.lawful_nodes h.nodes
  neighbors := h.alike_neighbors hU hD
  halfDegrees := h.halfDegrees hU hD
  hasEdge := h.edges
  degree x := by
    have hsum := D.degree_directed_add x
    obtain ⟨hin, hout⟩ := h.halfDegrees hU hD x
    rw [h.edges]
    omega
  edges := by
    rw [h.length_arcs hD]
    exact hU.length_arcs_add

/-- Whatever changes are made of an undirected graph, and both ways of a directed graph with the same policy: each
change gets the answer that the first of the two that stand for it gets, and after each the directed graph has every
edge of the undirected one in both directions. -/
theorem doubled_run (selfLoops : Bool) (cs : List (Change ν)) :
    let U : Graph ν .undirected := ((empty .undirected selfLoops).run cs).1
    let D : Graph ν .directed := ((empty .directed selfLoops).run (cs.flatMap Change.bothWays)).1
    U.DoubledBy D ∧
      ∀ c : Change ν,
        ((D.run c.bothWays).2.map (·.answer)).head? = some ((U.change c).answer.mapError Failure.turned) := by
  intro U D
  have hU : U.Reachable := ((Reachable.empty selfLoops).run cs).1
  have hD : D.Reachable := ((Reachable.empty selfLoops).run (cs.flatMap Change.bothWays)).1
  have hempty : (empty .undirected selfLoops : Graph ν .undirected).Mirrors (empty .directed selfLoops) :=
    ⟨rfl, fun _ => rfl, fun _ _ => rfl⟩
  have h : U.Mirrors D := hempty.run (.empty selfLoops) (.empty selfLoops) cs
  exact ⟨h.doubledBy hU.sound hD.sound, fun c => (h.change hU.sound hD.sound c).2⟩

/-- A self-loop and another edge at one node, which is written in two ways. -/
theorem doubled_run_loop :
    let x : Node Atom := .pair (.unordered (.atom (.integer 1)) (.atom (.integer 2)))
    let x' : Node Atom := .pair (.unordered (.atom (.integer 2)) (.atom (.integer 1)))
    let y : Node Atom := .atom (.integer 3)
    let cs := [.insertEdge .checked x x', .insertEdge .checked y x, .insertPair .checked (.unordered x' y)]
    let U : Graph (Node Atom) .undirected := ((empty .undirected true).run cs).1
    let D : Graph (Node Atom) .directed := ((empty .directed true).run (cs.flatMap Change.bothWays)).1
    U.DoubledBy D ∧ U.degree x = 2 ∧ D.degree x = 3 ∧ U.edges.size = 2 ∧ D.edges.size = 3 := by
  intro x x' y cs U D
  exact ⟨(doubled_run true cs).1, by decide +kernel, by decide +kernel, by decide +kernel, by decide +kernel⟩

end Graph

end GraphViews
