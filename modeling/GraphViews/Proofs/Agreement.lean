import GraphViews.Node.Atom
import GraphViews.Proofs.Reachable
/-!
# The sets of a graph agree

A graph hands out its nodes, its edges, and the neighbors and edges at a node, and answers some questions by
ways of its own. The size of the edge set is a counter, its items come from a scan; the size of the edges at a
node is a formula, their items come from two lists, and whether one is there is a case split. In a sound graph
all of it tells one story, that of `hasNode` and `hasEdge`.
-/

namespace GraphViews.Graph

variable {ν : Type} [BEq ν] {d : EdgeKind}

/-! ## Nodes and neighbors -/

theorem lawful_nodes (g : Graph ν d) : g.nodes.Lawful where
  distinct := g.records.distinct
  size_eq := by
    rw [nodes, Table.keys, List.length_map]
    rfl
  contains_eq x := by
    rw [nodes, Table.keys, List.contains_eq_any_beq, List.any_map]
    rfl
  isEmpty_eq := rfl

theorem lawful_neighbors [EquivBEq ν] (g : Graph ν d) (side : Side) (x : ν) : (g.neighbors side x).Lawful := by
  unfold neighbors
  cases g.records.find? x with
  | none => exact Reading.lawful_empty
  | some c =>
    cases side with
    | adjacent => exact c.lawful_adjacent
    | predecessors => exact c.predecessors.lawful_reading
    | successors => exact c.successors.lawful_reading

theorem contains_successors (g : Graph ν d) (x y : ν) : (g.neighbors .successors x).contains y = g.hasEdge x y := by
  unfold neighbors hasEdge
  cases g.records.find? x <;> rfl

theorem contains_predecessors (g : Graph ν d) (x y : ν) :
    (g.neighbors .predecessors x).contains y = g.hasBackEdge y x := by
  unfold neighbors hasBackEdge
  cases g.records.find? x <;> rfl

theorem contains_adjacent (g : Graph ν d) (x y : ν) :
    (g.neighbors .adjacent x).contains y = (g.hasBackEdge y x || g.hasEdge x y) := by
  unfold neighbors hasBackEdge hasEdge
  cases g.records.find? x with
  | none => rfl
  | some c => exact c.contains_adjacent y

/-- Nothing is found at a node that is not there. -/
theorem find?_eq_none {g : Graph ν d} {x : ν} (h : g.hasNode x = false) : g.records.find? x = none := by
  rwa [hasNode_eq_isSome, Option.isSome_eq_false_iff, Option.isNone_iff_eq_none] at h

/-! ## The questions that a graph answers by a way of its own -/

theorem survey_degree (g : Graph ν d) (x : ν) : g.survey.degree x = g.degree x := rfl

theorem survey_inDegree (g : Graph ν d) (x : ν) : g.survey.inDegree x = g.inDegree x := by
  simp only [Survey.inDegree, survey, neighbors, inDegree]
  cases g.records.find? x <;> rfl

theorem survey_outDegree (g : Graph ν d) (x : ν) : g.survey.outDegree x = g.outDegree x := by
  simp only [Survey.outDegree, survey, neighbors, outDegree]
  cases g.records.find? x <;> rfl

theorem survey_hasEdge (g : Graph ν d) (u v : ν) : g.survey.hasEdge u v = g.hasEdge u v :=
  g.contains_successors u v

theorem survey_hasPair (g : Graph ν d) (p : Ends ν) : g.survey.hasPair p = g.hasPair p := by
  rw [Survey.hasPair, survey_hasEdge]
  rfl

/-! ## Equal graphs -/

/-- Two sound graphs are equal if and only if they have the same nodes and the same edges from node to node. -/
theorem Sound.equal_iff [EquivBEq ν] {a b : Graph ν d} (ha : a.Sound) (hb : b.Sound) :
    a.survey.equal b.survey ↔ (∀ x, a.hasNode x = b.hasNode x) ∧ ∀ u v, a.hasEdge u v = b.hasEdge u v := by
  have hkind : (a.survey.edgeKind == b.survey.edgeKind) = true := beq_self_eq_true d
  have hnodes : a.nodes.equal b.nodes ↔ ∀ x, a.hasNode x = b.hasNode x := a.lawful_nodes.equal_iff b.lawful_nodes
  have hedges : a.edges.equal b.edges ↔ ∀ p, a.hasPair p = b.hasPair p := ha.lawful_edges.equal_iff hb.lawful_edges
  have hpairs : (∀ p, a.hasPair p = b.hasPair p) ↔ ∀ u v, a.hasEdge u v = b.hasEdge u v := by
    constructor
    · intro h u v
      rw [← hasPair_edge, h, hasPair_edge]
    · intro h p
      rw [hasPair, hasPair, h]
  rw [Survey.equal, hkind, Bool.true_and, Bool.and_eq_true, ← hpairs, ← hnodes, ← hedges]
  rfl

/-! ## The whole story -/

/-- Each set tells one story by its four answers, the story is that of the edges from node to node, and the
shorter ways to answer lead to what a count or a search through the items comes to. -/
structure Agrees (g : Graph ν d) (x : ν) : Prop where
  nodes : g.nodes.Lawful
  neighbors : ∀ side, (g.neighbors side x).Lawful
  edges : g.edges.Lawful
  incident : (g.incident x).Lawful
  mem_edges : ∀ p, g.edges.contains p ↔ ∃ u v, g.hasEdge u v ∧ p == d.edge u v
  mem_incident : ∀ p, (g.incident x).contains p = (g.edges.contains p && p.contains x)
  mem_successors : ∀ y, (g.neighbors .successors x).contains y = g.hasEdge x y
  mem_predecessors : ∀ y, (g.neighbors .predecessors x).contains y = g.hasEdge y x
  mem_adjacent : ∀ y, (g.neighbors .adjacent x).contains y =
    ((g.neighbors .predecessors x).contains y || (g.neighbors .successors x).contains y)
  absent : g.nodes.contains x = false → (∀ side, (g.neighbors side x).items = []) ∧ (g.incident x).items = []
  degree : g.degree x = (g.incident x).items.length ∧ g.survey.degree x = g.degree x
  inDegree : g.inDegree x = (g.neighbors .predecessors x).items.length ∧ g.survey.inDegree x = g.inDegree x
  outDegree : g.outDegree x = (g.neighbors .successors x).items.length ∧ g.survey.outDegree x = g.outDegree x
  hasEdge : ∀ y, g.hasEdge x y = (g.neighbors .successors x).items.contains y ∧ g.survey.hasEdge x y = g.hasEdge x y
  hasPair : ∀ p, g.hasPair p = g.edges.items.contains p ∧ g.survey.hasPair p = g.hasPair p

variable [EquivBEq ν] {g : Graph ν d}

namespace Sound

/-- The edge set holds the pairs that name edges, however they are written. -/
theorem hasPair_iff (hg : g.Sound) (p : Ends ν) : g.hasPair p ↔ ∃ u v, g.hasEdge u v ∧ p == d.edge u v := by
  constructor
  · intro h
    obtain ⟨hadmits, hedge⟩ := Bool.and_eq_true_iff.1 h
    refine ⟨p.fst, p.snd, hedge, ?_⟩
    rw [EdgeKind.edge_fst_snd hadmits]
    exact BEq.rfl
  · rintro ⟨u, v, hedge, hp⟩
    rw [hg.counted.eq_of_beq hp, hasPair_edge]
    exact hedge

theorem agrees (hg : g.Sound) (x : ν) : g.Agrees x := by
  have hincident := hg.lawful_incident x
  have hlawful := fun side => g.lawful_neighbors side x
  have habsent : g.nodes.contains x = false → (∀ side, (g.neighbors side x).items = []) ∧
      (g.incident x).items = [] := by
    intro h
    have hx := find?_eq_none h
    refine ⟨fun side => ?_, ?_⟩
    · rw [Graph.neighbors, hx]
      rfl
    · rw [Graph.incident, hx]
      rfl
  exact {
    nodes := g.lawful_nodes
    neighbors := hlawful
    edges := hg.lawful_edges
    incident := hincident
    mem_edges := hg.hasPair_iff
    mem_incident := hg.contains_incident x
    mem_successors := g.contains_successors x
    mem_predecessors := fun y => by rw [contains_predecessors, hg.returned]
    mem_adjacent := fun y => by rw [contains_adjacent, contains_predecessors, contains_successors]
    absent := habsent
    degree := ⟨hincident.size_eq, g.survey_degree x⟩
    inDegree := ⟨by rw [← survey_inDegree]; exact (hlawful .predecessors).size_eq, g.survey_inDegree x⟩
    outDegree := ⟨by rw [← survey_outDegree]; exact (hlawful .successors).size_eq, g.survey_outDegree x⟩
    hasEdge := fun y => ⟨by rw [← contains_successors]; exact (hlawful .successors).contains_eq y, g.survey_hasEdge x y⟩
    hasPair := fun p => ⟨hg.lawful_edges.contains_eq p, g.survey_hasPair p⟩ }

end Sound

/-- Whatever changes led to a graph, and in whatever order its records and their items come up, the sets that it
hands out agree with each other and with its other answers, at every node and beside every node. -/
theorem sets_agree (h : g.Reachable) (x : ν) : g.Agrees x := h.sound.agrees x

/-- A node with a self-loop and another edge, with the records turned around, and a node that is not there. -/
theorem sets_agree_reversed :
    let x : Node Atom := .pair (.unordered (.atom (.integer 1)) (.atom (.integer 2)))
    let x' : Node Atom := .pair (.unordered (.atom (.integer 2)) (.atom (.integer 1)))
    let y : Node Atom := .atom (.integer 3)
    let g := ((empty .undirected true).run [.insertEdge .checked x x', .insertEdge .checked y x']).1
    ∃ g', g.Rearranged g' ∧ g'.nodes.items = g.nodes.items.reverse ∧ g'.Agrees x ∧ g'.degree x = 2 ∧
      g'.edges.size = 2 ∧ g'.Agrees (.atom (.integer 7)) := by
  intro x x' y g
  have hd : Distinct (g.records.entries.reverse.map (·.1)) := by
    rw [Distinct, List.map_reverse, List.pairwise_reverse]
    exact g.records.distinct.imp fun h => by rw [BEq.comm, h]
  have hr : g.Rearranged { g with records := ⟨g.records.entries.reverse, hd⟩ } :=
    .of_perm (List.reverse_perm _).symm
  have hg := ((Reachable.empty true).run [.insertEdge .checked x x', .insertEdge .checked y x']).1.rearranged hr
  exact ⟨_, hr, List.map_reverse, sets_agree hg x, rfl, rfl, sets_agree hg (.atom (.integer 7))⟩

end GraphViews.Graph
