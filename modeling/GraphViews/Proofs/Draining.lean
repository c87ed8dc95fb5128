import GraphViews.Node.Atom
import GraphViews.Proofs.Loops
/-!
# Taking a graph apart while going through its sets

Going through a set and removing from the graph what comes up, each item is still in the set when its turn comes, and
its removal takes that item out and no other. Equal items would spoil this: the second of them would be gone already.
That there are none, however an edge is listed and whatever self-loops there are, is what `HandsOut` says of the set
at the start; `TakesOut` says what a single removal does to it.
-/

namespace GraphViews

namespace Graph

variable {ν α : Type} [BEq ν] [BEq α] {d : EdgeKind}

/-! ## Draining a set -/

/-- Making the change for an item of the set succeeds, takes that item out of the set and leaves the others, and the
graphs before and after it are as `R` says. -/
structure TakesOut (set : Graph ν d → Reading α) (act : α → Change ν) (R : Graph ν d → α → Graph ν d → Prop) :
    Prop where
  answer : ∀ {g x}, g.Sound → (set g).contains x → (g.change (act x)).answer = .ok true
  contains : ∀ {g x}, g.Sound → (set g).contains x → ∀ y,
    (set (g.change (act x)).state).contains y = ((set g).contains y && !(x == y))
  relates : ∀ {g x}, g.Sound → (set g).contains x → R g x (g.change (act x)).state

/-- A step that succeeds, takes the item and no other out of the set, which is smaller by one then, and is as `R`
says. -/
structure TakesOne (set : Graph ν d → Reading α) (R : Graph ν d → α → Graph ν d → Prop) (g : Graph ν d) (x : α)
    (e : Effect ν (Graph ν d)) : Prop where
  answer : e.answer = .ok true
  size : (set e.state).size + 1 = (set g).size
  contains : ∀ y, (set e.state).contains y = ((set g).contains y && !(x == y))
  relates : R g x e.state

/-- The loop over the set, whose items come up as `xs`, has as many steps as the set has items at the start, each takes
one item out of the set, and nothing is left in the end. -/
structure Drains (set : Graph ν d → Reading α) (act : α → Change ν) (R : Graph ν d → α → Graph ν d → Prop)
    (g : Graph ν d) (xs : List α) : Prop where
  drawn : ∀ r : Reading α, r.items = xs →
    loopOver set act g (Cursor.start (fun _ => r) (.leaf ())) = (xs, (g.run (xs.map act)).1)
  length : xs.length = (set g).size
  each : EachStep act (TakesOne set R) g xs
  vacant : (set (g.run (xs.map act)).1).Vacant

section
variable [EquivBEq α] {set : Graph ν d → Reading α} {act : α → Change ν} {R : Graph ν d → α → Graph ν d → Prop}
  {g : Graph ν d}

/-- After a step, the set has the items that are still to come. -/
theorem TakesOut.lists (h : TakesOut set act R) (hg : g.Sound) {x : α} {xs : List α} (hx : (set g).Lists (x :: xs)) :
    (set (g.change (act x)).state).Lists xs := by
  refine ⟨(List.pairwise_cons.1 hx.distinct).2, fun y => ?_⟩
  rw [h.contains hg hx.head.1, hx.contains_eq, List.contains_cons, BEq.comm (a := y)]
  by_cases hxy : x == y
  · simp [hxy, ← elem_congr xs hxy, hx.head.2]
  · simp [hxy]

theorem TakesOut.drains [EquivBEq ν] (h : TakesOut set act R) (hset : HandsOut set) (hg : g.Sound) {xs : List α}
    (hx : g.Shows set xs) : Drains set act R g xs := by
  have hlists : (set g).Lists xs := hx.lists hset hg
  -- At every moment the set has the items still to come, so its size is their number.
  have hstep : ∀ g x xs, g.Sound ∧ (set g).Lists (x :: xs) → TakesOne set R g x (g.change (act x)) ∧
      (g.change (act x)).state.Sound ∧ (set (g.change (act x)).state).Lists xs := by
    rintro g x xs ⟨hg, hx⟩
    have hg' : (g.change (act x)).state.Sound := hg.change _
    have hx' : (set (g.change (act x)).state).Lists xs := h.lists hg hx
    refine ⟨⟨h.answer hg hx.head.1, ?_, h.contains hg hx.head.1, h.relates hg hx.head.1⟩, hg', hx'⟩
    rw [(hset.lawful hg').size_of_lists hx', (hset.lawful hg).size_of_lists hx, List.length_cons]
  obtain ⟨heach, hlast, hnone⟩ := eachStep_of_invariant (fun g xs => g.Sound ∧ (set g).Lists xs) hstep ⟨hg, hlists⟩
  refine ⟨?_, ((hset.lawful hg).size_of_lists hlists).symm, heach, (hset.lawful hlast).vacant hnone⟩
  rintro r rfl
  exact loopOver_start set act g r

end

/-! ## What the removals take out -/

/-- The removal of an edge that is there, named by a pair. -/
theorem change_erasePair_of_hasPair {g : Graph ν d} {p : Ends ν} (h : g.hasPair p) (s : Strictness) :
    d.edge p.fst p.snd = p ∧ g.hasEdge p.fst p.snd ∧ g.change (.erasePair s p) = g.eraseEdge p.fst p.snd := by
  obtain ⟨hadmits, hedge⟩ := Bool.and_eq_true_iff.1 h
  refine ⟨EdgeKind.edge_fst_snd hadmits, hedge, ?_⟩
  rw [change_erasePair, if_pos hadmits]

variable [EquivBEq ν] {g : Graph ν d}

/-- As many edges went as there were at the node. -/
def LosesNode (g : Graph ν d) (x : ν) (g' : Graph ν d) : Prop := g'.edges.size + g.degree x = g.edges.size

/-- One edge went, and the nodes are the same. -/
def LosesEdge (g g' : Graph ν d) : Prop := g'.edges.size + 1 = g.edges.size ∧ g'.nodes = g.nodes

theorem Sound.losesNode (hg : g.Sound) (x : ν) : g.LosesNode x (g.withoutNode x) := by
  have hle : g.degree x ≤ g.edgeCount := hg.degree_le_edgeCount x
  have hcount := g.edgeCount_withoutNode x
  change (g.withoutNode x).edgeCount + g.degree x = g.edgeCount
  omega

theorem nodes_withoutEdge (g : Graph ν d) (u v : ν) : (g.withoutEdge u v).nodes = g.nodes := by
  have hkeys := g.keys_withoutEdge u v
  have hcontains : (g.withoutEdge u v).hasNode = g.hasNode := funext (g.hasNode_withoutEdge u v)
  have hsize : (g.withoutEdge u v).nodeCount = g.nodeCount := by
    have hlen := congrArg List.length hkeys
    rwa [Table.keys, Table.keys, List.length_map, List.length_map] at hlen
  rw [nodes, nodes, hkeys, hcontains, hsize]

theorem Sound.losesEdge (hg : g.Sound) {u v : ν} (h : g.hasEdge u v) : g.LosesEdge (g.withoutEdge u v) := by
  have hpos : 1 ≤ g.edgeCount := hg.edgeCount_pos h
  have hcount : (g.withoutEdge u v).edgeCount = g.edgeCount - 1 := by
    rw [Graph.withoutEdge, if_pos h]
  refine ⟨?_, g.nodes_withoutEdge u v⟩
  change (g.withoutEdge u v).edgeCount + 1 = g.edgeCount
  omega

theorem takesOut_nodes : TakesOut (nodes : Graph ν d → Reading ν) .eraseNode LosesNode where
  answer _ hx := congrArg Except.ok hx
  contains hg _ y := hasNode_withoutNode hg.returned _ y
  relates hg _ := hg.losesNode _

/-- Removing the edges of a set of edges, which the set has or not by the edge alone. -/
theorem takesOut_pairs {set : Graph ν d → Reading (Ends ν)} {P : Ends ν → Bool}
    (hset : ∀ {g : Graph ν d}, g.Sound → ∀ p, (set g).contains p = (g.hasPair p && P p)) (s : Strictness) :
    TakesOut set (.erasePair s) fun g _ g' => g.LosesEdge g' where
  answer {g p} hg hp := by
    rw [hset hg, Bool.and_eq_true] at hp
    obtain ⟨-, hedge, hchange⟩ := change_erasePair_of_hasPair hp.1 s
    rw [hchange, eraseEdge, hedge]
  contains {g p} hg hp q := by
    rw [hset hg, Bool.and_eq_true] at hp
    obtain ⟨hpair, -, hchange⟩ := change_erasePair_of_hasPair hp.1 s
    have hstate : (g.change (.erasePair s p)).state = g.withoutEdge p.fst p.snd := congrArg Effect.state hchange
    rw [hset (hg.change _), hstate, hset hg, hasPair_withoutEdge, hpair, Bool.and_right_comm]
  relates {g p} hg hp := by
    rw [hset hg, Bool.and_eq_true] at hp
    obtain ⟨-, hedge, hchange⟩ := change_erasePair_of_hasPair hp.1 s
    rw [hchange]
    exact hg.losesEdge hedge

theorem takesOut_edges (s : Strictness) :
    TakesOut (edges : Graph ν d → Reading (Ends ν)) (.erasePair s) fun g _ g' => g.LosesEdge g' :=
  takesOut_pairs (P := fun _ => true) (fun _ _ => (Bool.and_true _).symm) s

theorem takesOut_incident (x : ν) (s : Strictness) :
    TakesOut (fun g : Graph ν d => g.incident x) (.erasePair s) fun g _ g' => g.LosesEdge g' :=
  takesOut_pairs (fun hg p => hg.contains_incident x p) s

theorem takesOut_successors (x : ν) :
    TakesOut (fun g : Graph ν d => g.neighbors .successors x) (.eraseEdge x) fun g _ g' => g.LosesEdge g' where
  answer {g y} _ hy := by
    rw [contains_successors] at hy
    exact congrArg Except.ok hy
  contains {g y} _ _ z := by
    rw [contains_successors, contains_successors, ← d.edge_beq_edge_right x y z]
    exact g.hasEdge_withoutEdge x y x z
  relates {g y} hg hy := by
    rw [contains_successors] at hy
    exact hg.losesEdge hy

theorem takesOut_predecessors (x : ν) :
    TakesOut (fun g : Graph ν d => g.neighbors .predecessors x) (.eraseEdge · x) fun g _ g' => g.LosesEdge g' where
  answer {g y} hg hy := by
    rw [contains_predecessors, hg.returned] at hy
    exact congrArg Except.ok hy
  contains {g y} _ _ z := by
    rw [contains_predecessors, contains_predecessors, ← d.edge_beq_edge_left x y z]
    exact g.hasBackEdge_withoutEdge y x z x
  relates {g y} hg hy := by
    rw [contains_predecessors, hg.returned] at hy
    exact hg.losesEdge hy

/-- A sound graph without nodes has no edges. -/
theorem Sound.edges_size_of_vacant (hg : g.Sound) (h : g.nodes.Vacant) : g.edges.size = 0 := by
  refine hg.counted.unique (.of_none fun p => ?_)
  rw [hasPair, Bool.and_eq_false_iff]
  right
  rw [Bool.eq_false_iff]
  intro hedge
  have hnode : g.hasNode p.fst := (hg.hasNode_of_hasEdge hedge).1
  rw [show g.hasNode p.fst = false from h.contains p.fst] at hnode
  cases hnode

/-- Take any graph that changes lead to, go through one of its sets, in whatever order the items come up, and remove
from the graph what comes up. Every removal succeeds, the set gets smaller by one each time, and it is empty after as
many steps as it had items. A node takes with it as many edges as it has by then, and in the end there are no nodes
and no edges. The removal of an edge lowers the number of edges by one and does not touch the nodes. -/
theorem sets_drain (h : g.Reachable) (x : ν) (s : Strictness) :
    (∀ ys, g.Shows nodes ys → Drains nodes .eraseNode LosesNode g ys ∧ (g.run (ys.map .eraseNode)).1.edges.size = 0) ∧
    (∀ ps, g.Shows edges ps → Drains edges (.erasePair s) (fun g _ g' => g.LosesEdge g') g ps) ∧
    (∀ ps, g.Shows (incident · x) ps → Drains (incident · x) (.erasePair s) (fun g _ g' => g.LosesEdge g') g ps) ∧
    (∀ ys, g.Shows (neighbors · .successors x) ys →
      Drains (neighbors · .successors x) (.eraseEdge x ·) (fun g _ g' => g.LosesEdge g') g ys) ∧
    ∀ ys, g.Shows (neighbors · .predecessors x) ys →
      Drains (neighbors · .predecessors x) (.eraseEdge · x) (fun g _ g' => g.LosesEdge g') g ys := by
  have hg : g.Sound := h.sound
  refine ⟨fun ys hys => ?_, fun ps hps => ?_, fun ps hps => ?_, fun ys hys => ?_, fun ys hys => ?_⟩
  · have hdrains := takesOut_nodes.drains handsOut_nodes hg hys
    exact ⟨hdrains, (h.run _).1.sound.edges_size_of_vacant hdrains.vacant⟩
  · exact (takesOut_edges s).drains handsOut_edges hg hps
  · exact (takesOut_incident x s).drains (handsOut_incident x) hg hps
  · exact (takesOut_successors x).drains (handsOut_neighbors .successors x) hg hys
  · exact (takesOut_predecessors x).drains (handsOut_neighbors .predecessors x) hg hys

/-- A self-loop and another edge at one node, written in two ways, with what comes up turned around. -/
theorem sets_drain_reversed :
    let x : Node Atom := .pair (.unordered (.atom (.integer 1)) (.atom (.integer 2)))
    let x' : Node Atom := .pair (.unordered (.atom (.integer 2)) (.atom (.integer 1)))
    let y : Node Atom := .atom (.integer 3)
    let g : Graph (Node Atom) .undirected :=
      ((empty .undirected true).run [.insertEdge .checked x x', .insertEdge .checked y x']).1
    Drains nodes .eraseNode LosesNode g g.nodes.items.reverse ∧ g.nodes.items.length = 2 ∧
      Drains (incident · x') (.erasePair .checked) (fun g _ g' => g.LosesEdge g') g (g.incident x').items.reverse ∧
      (g.incident x').items.length = 2 := by
  intro x x' y g
  have hg : g.Reachable := ((Reachable.empty true).run [.insertEdge .checked x x', .insertEdge .checked y x']).1
  obtain ⟨hnodes, -, hincident, -⟩ := sets_drain hg x' .checked
  refine ⟨(hnodes _ ?_).1, by decide +kernel, hincident _ ?_, by decide +kernel⟩
  · exact g.shows_of_perm (List.reverse_perm _)
  · exact g.shows_of_perm (List.reverse_perm _)

end Graph

end GraphViews
