import GraphViews.Node.Atom
import GraphViews.Proofs.Alike
import GraphViews.Proofs.Loops
/-!
# Building a graph again from its sets

The nodes of a graph and then its edges, put one by one into a new graph with the same settings, make an equal graph.
Along the way the sets of the old graph have what those of the new one have already and, besides, the items still to
come (`Reading.Exceeds`): so nothing that is put in is there before its turn, and in the end nothing is missing. No
edge is refused, because the old graph has it and both have one policy.
-/

namespace GraphViews

/-- The first set has what the second has and, besides, the listed items, each once. -/
structure Reading.Exceeds {α : Type} [BEq α] (r r' : Reading α) (xs : List α) : Prop where
  distinct : Distinct xs
  apart : ∀ x ∈ xs, r'.contains x = false
  contains_eq : ∀ y, r.contains y = (r'.contains y || xs.contains y)

namespace Reading

variable {α : Type} [BEq α] {r r' s : Reading α} {x : α} {xs : List α}

theorem Lists.exceeds (h : r.Lists xs) (hn : ∀ x, r'.contains x = false) : r.Exceeds r' xs where
  distinct := h.distinct
  apart x _ := hn x
  contains_eq y := by rw [h.contains_eq, hn, Bool.false_or]

theorem Exceeds.contains_eq_of_nil (h : r.Exceeds r' []) (y : α) : r.contains y = r'.contains y := by
  rw [h.contains_eq]
  exact Bool.or_false _

variable [EquivBEq α]

theorem Exceeds.head (h : r.Exceeds r' (x :: xs)) : r.contains x ∧ r'.contains x = false := by
  refine ⟨?_, h.apart x List.mem_cons_self⟩
  rw [h.contains_eq, elem_of_mem List.mem_cons_self, Bool.or_true]

/-- When the first of the missing items is put in, the others are missing still. -/
theorem Exceeds.tail (h : r.Exceeds r' (x :: xs)) (hs : ∀ y, s.contains y = (x == y || r'.contains y)) :
    r.Exceeds s xs := by
  obtain ⟨hx, hxs⟩ := List.pairwise_cons.1 h.distinct
  refine ⟨hxs, fun y hy => ?_, fun y => ?_⟩
  · rw [hs, hx y hy, h.apart y (List.mem_cons_of_mem x hy)]
    rfl
  · rw [h.contains_eq, hs, List.contains_cons, BEq.comm (a := y), Bool.or_left_comm, Bool.or_assoc]

end Reading

namespace Graph

variable {ν : Type} [BEq ν] {d : EdgeKind}

/-- Puts the nodes `ns` and then the edges `ps` into a new graph with the settings of `g`. -/
def rebuilt (g : Graph ν d) (s : Strictness) (ns : List ν) (ps : List (Ends ν)) :
    Graph ν d × List (Effect ν (Graph ν d)) :=
  ((Settings.like g.survey).build : Graph ν d).run (ns.map .insertNode ++ ps.map (.insertPair s))

variable [EquivBEq ν] {g : Graph ν d}

/-- A graph with the policy of `g` accepts every edge of `g`. -/
theorem Sound.change_insertPair_of_hasPair (hg : g.Sound) {p : Ends ν} (hp : g.hasPair p) {k : Graph ν d}
    (hk : k.selfLoops = g.selfLoops) (s : Strictness) :
    (k.change (.insertPair s p)).answer = .ok (!k.hasPair p) ∧
      (k.change (.insertPair s p)).state = k.withEdge p.fst p.snd := by
  obtain ⟨hadmits, hedge⟩ := Bool.and_eq_true_iff.1 hp
  have hallowed : ¬(!k.selfLoops && p.fst == p.snd) = true := by
    rw [hk, Bool.and_eq_true, Bool.not_eq_true']
    rintro ⟨hpolicy, hloop⟩
    rw [g.hasEdge_congr hloop BEq.rfl, hg.loopless hpolicy] at hedge
    cases hedge
  rw [change_insertPair, if_pos hadmits, insertEdge_eq, if_neg hallowed, hasPair, hadmits]
  exact ⟨rfl, rfl⟩

/-! ## The nodes -/

/-- A graph that is being built like `g`, with the nodes `ns` still to come and no edges. -/
structure NodesMissing (g k : Graph ν d) (ns : List ν) : Prop where
  selfLoops : k.selfLoops = g.selfLoops
  nodes : g.nodes.Exceeds k.nodes ns
  edges : ∀ p, k.hasPair p = false

theorem NodesMissing.insertNode {k : Graph ν d} {x : ν} {ns : List ν} (h : g.NodesMissing k (x :: ns)) :
    (k.change (.insertNode x)).answer = .ok true ∧ g.NodesMissing (k.change (.insertNode x)).state ns := by
  refine ⟨?_, h.selfLoops, h.nodes.tail (k.hasNode_withNode x), fun p => ?_⟩
  · have hx : k.hasNode x = false := h.nodes.head.2
    rw [change, Graph.insertNode, hx]
    rfl
  · change (k.withNode x).hasPair p = false
    rw [hasPair, hasEdge_withNode]
    exact h.edges p

/-! ## The edges -/

/-- A graph that is being built like `g`, with all its nodes, and with the edges `ps` still to come. -/
structure EdgesMissing (g k : Graph ν d) (ps : List (Ends ν)) : Prop where
  selfLoops : k.selfLoops = g.selfLoops
  nodes : ∀ x, k.hasNode x = g.hasNode x
  edges : g.edges.Exceeds k.edges ps

theorem EdgesMissing.insertPair (hg : g.Sound) {k : Graph ν d} {p : Ends ν} {ps : List (Ends ν)}
    (h : g.EdgesMissing k (p :: ps)) (s : Strictness) :
    (k.change (.insertPair s p)).answer = .ok true ∧ g.EdgesMissing (k.change (.insertPair s p)).state ps := by
  have hp : g.hasPair p := h.edges.head.1
  have hnew : k.hasPair p = false := h.edges.head.2
  obtain ⟨hadmits, hedge⟩ := Bool.and_eq_true_iff.1 hp
  obtain ⟨hu, hv⟩ := hg.hasNode_of_hasEdge hedge
  obtain ⟨hanswer, hstate⟩ := hg.change_insertPair_of_hasPair hp h.selfLoops s
  rw [hanswer, hstate, hnew]
  refine ⟨rfl, h.selfLoops, fun x => ?_, h.edges.tail fun q => ?_⟩
  · rw [hasNode_withEdge, h.nodes]
    by_cases hux : p.fst == x
    · rw [hux, ← g.hasNode_congr hux, hu]
      rfl
    · by_cases hvx : p.snd == x
      · rw [hvx, ← g.hasNode_congr hvx, hv, Bool.or_true]
      · simp [hux, hvx]
  · change (k.withEdge p.fst p.snd).hasPair q = (p == q || k.hasPair q)
    rw [hasPair_withEdge, EdgeKind.edge_fst_snd hadmits, Bool.or_comm]

/-! ## The whole graph -/

theorem Sound.rebuilt_run (hg : g.Sound) {ns : List ν} {ps : List (Ends ν)} (hns : g.Shows nodes ns)
    (hps : g.Shows edges ps) (s : Strictness) :
    (∀ e ∈ (g.rebuilt s ns ps).2, e.answer = .ok true) ∧ g.EdgesMissing (g.rebuilt s ns ps).1 [] := by
  have hfresh : g.NodesMissing ((Settings.like g.survey).build : Graph ν d) ns :=
    ⟨rfl, (hns.lists handsOut_nodes hg).exceeds fun _ => rfl, fun p => Bool.and_false _⟩
  obtain ⟨hfirst, hbare⟩ := eachStep_of_invariant (P := fun _ _ e => e.answer = .ok true) g.NodesMissing
    (fun _ _ _ h => h.insertNode) hfresh
  have hnodes := hbare.nodes.contains_eq_of_nil
  have hstart := EdgesMissing.mk hbare.selfLoops (fun x => (hnodes x).symm)
    ((hps.lists handsOut_edges hg).exceeds hbare.edges)
  obtain ⟨hsecond, hlast⟩ := eachStep_of_invariant (P := fun _ _ e => e.answer = .ok true) g.EdgesMissing
    (fun _ _ _ h => h.insertPair hg s) hstart
  rw [rebuilt, snd_run_append, fst_run_append]
  refine ⟨fun e he => ?_, hlast⟩
  rcases List.mem_append.1 he with he | he
  · exact hfirst.of_mem_effects e he
  · exact hsecond.of_mem_effects e he

/-- Take any graph that changes lead to, make a new one with its settings, and put in its nodes and then its edges, in
whatever order they come up. Every insertion is told to be new and none is refused, and the new graph has the same kind
of edges, the same policy and the same numbers of nodes and edges, equals the old one either way, and answers every
question about nodes, neighbors and degrees as it does. -/
theorem rebuilt_alike (h : g.Reachable) {ns : List ν} {ps : List (Ends ν)} (hns : g.Shows nodes ns)
    (hps : g.Shows edges ps) (s : Strictness) :
    let r := g.rebuilt s ns ps
    (∀ e ∈ r.2, e.answer = .ok true) ∧ r.1.survey.edgeKind = g.survey.edgeKind ∧
      r.1.survey.selfLoops = g.survey.selfLoops ∧ r.1.nodes.size = g.nodes.size ∧ r.1.edges.size = g.edges.size ∧
      r.1.survey.equal g.survey ∧ g.survey.equal r.1.survey ∧ r.1.Alike g := by
  intro r
  obtain ⟨hanswers, hdone⟩ := h.sound.rebuilt_run hns hps s
  have hr : r.1.Sound := ((Reachable.empty g.selfLoops).run _).1.sound
  have hedges : ∀ u v, r.1.hasEdge u v = g.hasEdge u v := by
    intro u v
    rw [← hasPair_edge, ← hasPair_edge]
    exact (hdone.edges.contains_eq_of_nil (d.edge u v)).symm
  have halike : r.1.Alike g := hr.alike h.sound hdone.selfLoops ⟨hdone.nodes, hedges⟩ h.sound.fits_shape
  refine ⟨hanswers, rfl, hdone.selfLoops, halike.nodes.size, halike.edges.size, ?_, ?_, halike⟩
  · exact (hr.equal_iff h.sound).2 ⟨hdone.nodes, hedges⟩
  · exact (h.sound.equal_iff hr).2 ⟨fun x => (hdone.nodes x).symm, fun u v => (hedges u v).symm⟩

/-- A self-loop and another edge at one node, which is written in two ways, put in from the last to the first. -/
theorem rebuilt_alike_reversed :
    let x : Node Atom := .pair (.unordered (.atom (.integer 1)) (.atom (.integer 2)))
    let x' : Node Atom := .pair (.unordered (.atom (.integer 2)) (.atom (.integer 1)))
    let y : Node Atom := .atom (.integer 3)
    let g : Graph (Node Atom) .undirected :=
      ((empty .undirected true).run [.insertEdge .checked x x', .insertEdge .checked y x']).1
    let r := g.rebuilt .checked g.nodes.items.reverse g.edges.items.reverse
    (∀ e ∈ r.2, e.answer = .ok true) ∧ r.2.length = 4 ∧ r.1.survey.equal g.survey ∧ r.1.Alike g := by
  intro x x' y g r
  have hg : g.Reachable := ((Reachable.empty true).run [.insertEdge .checked x x', .insertEdge .checked y x']).1
  have hns : g.Shows nodes g.nodes.items.reverse := g.shows_of_perm (List.reverse_perm _)
  have hps : g.Shows edges g.edges.items.reverse := g.shows_of_perm (List.reverse_perm _)
  obtain ⟨hanswers, -, -, -, -, hequal, -, halike⟩ := rebuilt_alike hg hns hps .checked
  exact ⟨hanswers, by decide +kernel, hequal, halike⟩

end Graph

end GraphViews
