import GraphViews.Proofs.Agreement
import GraphViews.Proofs.Shape
/-!
# The way a node is written does not matter

Two runs that make the same changes, with equal nodes and pairs however these are written, on equal graphs: they
get the same answers, and the graphs stay equal. The reason is that both graphs fit one shape (`Sound.fits_change`)
and that a shape does not tell alike changes apart (`Shape.step_congr`).
-/

namespace GraphViews

variable {ν : Type} [BEq ν] {d : EdgeKind}

/-! ## Alike changes and alike answers -/

/-- The same change, made with equal nodes and pairs. An edge without direction may be given by its ends in the
other order. -/
inductive Change.Alike (d : EdgeKind) : Change ν → Change ν → Prop
  | insertNode {x y : ν} (h : x == y) : Alike d (.insertNode x) (.insertNode y)
  | eraseNode {x y : ν} (h : x == y) : Alike d (.eraseNode x) (.eraseNode y)
  | insertEdge (s : Strictness) {u v a b : ν} (h : d.edge u v == d.edge a b) :
    Alike d (.insertEdge s u v) (.insertEdge s a b)
  | eraseEdge {u v a b : ν} (h : d.edge u v == d.edge a b) : Alike d (.eraseEdge u v) (.eraseEdge a b)
  | insertPair (s : Strictness) {p q : Ends ν} (h : p == q) : Alike d (.insertPair s p) (.insertPair s q)
  | erasePair (s : Strictness) {p q : Ends ν} (h : p == q) : Alike d (.erasePair s p) (.erasePair s q)

/-- The same kind of violation, about equal nodes and pairs. -/
inductive Violation.Alike : Violation ν → Violation ν → Prop
  | unordered : Alike .unordered .unordered
  | notAnEnd {p q : Ends ν} {x y : ν} (hp : p == q) (hx : x == y) : Alike (.notAnEnd p x) (.notAnEnd q y)
  | selfLoop {x y : ν} (h : x == y) : Alike (.selfLoop x) (.selfLoop y)
  | wrongKind {p q : Ends ν} (h : p == q) : Alike (.wrongKind p) (.wrongKind q)

/-- Alike violations, reported in the same way. -/
structure Failure.Alike (f f' : Failure ν) : Prop where
  strictness : f.strictness = f'.strictness
  violation : f.violation.Alike f'.violation

/-- Two successes with the same value, or two errors that are alike. -/
inductive SameAnswer {ε α : Type} (alike : ε → ε → Prop) : Except ε α → Except ε α → Prop
  | ok (a : α) : SameAnswer alike (.ok a) (.ok a)
  | error {e e' : ε} (h : alike e e') : SameAnswer alike (.error e) (.error e')

/-- Two sets that give the same answers about equal items. -/
structure Reading.Alike {α : Type} [BEq α] (r s : Reading α) : Prop where
  contains : ∀ {x y}, x == y → r.contains x = s.contains y
  size : r.size = s.size
  isEmpty : r.isEmpty = s.isEmpty

theorem Reading.Lawful.alike {α : Type} [BEq α] [EquivBEq α] {r s : Reading α} (hr : r.Lawful) (hs : s.Lawful)
    (h : ∀ x, r.contains x = s.contains x) : r.Alike s := by
  have hsize : r.size = s.size := hr.size_congr hs h
  refine ⟨?_, hsize, by rw [hr.isEmpty_eq, hs.isEmpty_eq, hsize]⟩
  intro x y hxy
  rw [hr.contains_congr hxy, h]

/-- Two graphs that give the same answers about equal nodes and pairs. -/
structure Graph.Alike (a b : Graph ν d) : Prop where
  selfLoops : a.selfLoops = b.selfLoops
  nodes : a.nodes.Alike b.nodes
  neighbors : ∀ side {x y}, x == y → (a.neighbors side x).Alike (b.neighbors side y)
  edges : a.edges.Alike b.edges
  incident : ∀ {x y}, x == y → (a.incident x).Alike (b.incident y)
  degree : ∀ {x y}, x == y → a.degree x = b.degree y
  inDegree : ∀ {x y}, x == y → a.inDegree x = b.inDegree y
  outDegree : ∀ {x y}, x == y → a.outDegree x = b.outDegree y
  hasEdge : ∀ {u v u' v'}, d.edge u v == d.edge u' v' → a.hasEdge u v = b.hasEdge u' v'
  hasPair : ∀ {p q}, p == q → a.hasPair p = b.hasPair q
  validate : ∀ {p q : Ends ν}, p == q → SameAnswer Violation.Alike (d.validate p) (d.validate q)

/-- Two changes that got the same answer and left equal graphs, which give the same answers. -/
structure Effect.Alike (e e' : Effect ν (Graph ν d)) : Prop where
  answer : SameAnswer Failure.Alike e.answer e'.answer
  equal : e.state.survey.equal e'.state.survey
  state : e.state.Alike e'.state

variable [EquivBEq ν]

/-! ## Shapes do not tell alike changes apart -/

namespace Shape

theorem addNode_congr (A : Shape ν d) {x y : ν} (h : x == y) : A.addNode x = A.addNode y := by
  apply Shape.ext
  · funext z
    simp only [addNode, BEq.congr_left h]
  · rfl

theorem removeNode_congr (A : Shape ν d) {x y : ν} (h : x == y) : A.removeNode x = A.removeNode y := by
  apply Shape.ext
  · funext z
    simp only [removeNode, BEq.congr_left h]
  · funext u v
    simp only [removeNode, BEq.congr_left h]

theorem putEdge_congr (A : Shape ν d) {u v a b : ν} (h : d.edge u v == d.edge a b) : A.putEdge u v = A.putEdge a b := by
  apply Shape.ext
  · funext z
    have hz : (u == z || v == z) = (a == z || b == z) := by
      have := Ends.contains_congr h (BEq.refl z)
      simpa [Ends.contains] using this
    simp only [putEdge, hz]
  · funext s t
    simp only [putEdge, d.goes_eq, BEq.congr_left h]

theorem removeEdge_congr (A : Shape ν d) {u v a b : ν} (h : d.edge u v == d.edge a b) :
    A.removeEdge u v = A.removeEdge a b := by
  apply Shape.ext
  · rfl
  · funext s t
    simp only [removeEdge, d.goes_eq, BEq.congr_left h]

theorem insertEdge_congr (selfLoops : Bool) (A : Shape ν d) {u v a b : ν} (h : d.edge u v == d.edge a b) :
    A.insertEdge selfLoops u v = A.insertEdge selfLoops a b := by
  rw [insertEdge, insertEdge, EdgeKind.loop_congr h, A.edges_eq_of_beq h, A.putEdge_congr h]

theorem step_congr (selfLoops : Bool) (A : Shape ν d) {c c' : Change ν} (h : c.Alike d c') :
    A.step selfLoops c = A.step selfLoops c' := by
  cases h with
  | insertNode h => rw [step, step, A.nodes_congr h, A.addNode_congr h]
  | eraseNode h => rw [step, step, A.nodes_congr h, A.removeNode_congr h]
  | insertEdge s h => exact A.insertEdge_congr selfLoops h
  | eraseEdge h => rw [step, step, A.edges_eq_of_beq h, A.removeEdge_congr h]
  | insertPair s h =>
    rw [step, step, d.admits_congr h]
    split
    · exact A.insertEdge_congr selfLoops (EdgeKind.edge_fst_snd_congr h ‹_›)
    · rfl
  | erasePair s h =>
    rw [step, step, d.admits_congr h]
    split
    · have he := EdgeKind.edge_fst_snd_congr h ‹_›
      rw [A.edges_eq_of_beq he, A.removeEdge_congr he]
    · rfl

end Shape

/-! ## Two graphs of one shape -/

namespace Graph

variable {a b : Graph ν d} {A : Shape ν d}

theorem Fits.insertEdge_alike (ha : a.Fits A) (hb : b.Fits A) (hp : a.selfLoops = b.selfLoops) (s : Strictness)
    {u v u' v' : ν} (h : d.edge u v == d.edge u' v') :
    SameAnswer Failure.Alike (a.insertEdge s u v).answer (b.insertEdge s u' v').answer := by
  rw [insertEdge_eq, insertEdge_eq, hp, EdgeKind.loop_congr h]
  by_cases hr : (!b.selfLoops && u' == v') = true
  · rw [if_pos hr, if_pos hr]
    -- The ends of a self-loop are equal, so it does not matter which of them an error names.
    have huv : u' == v' := (Bool.and_eq_true_iff.1 hr).2
    have hu : u == u' := by
      have hends := Ends.fst_snd_of_beq h
      rw [EdgeKind.fst_edge, EdgeKind.fst_edge, EdgeKind.snd_edge, EdgeKind.snd_edge] at hends
      rcases hends with ⟨hu, -⟩ | ⟨hu, -⟩
      · exact hu
      · exact BEq.trans hu (BEq.symm huv)
    exact .error ⟨rfl, .selfLoop hu⟩
  · rw [if_neg hr, if_neg hr, ha.edges, hb.edges, A.edges_eq_of_beq h]
    exact .ok _

theorem Fits.answer_alike (ha : a.Fits A) (hb : b.Fits A) (hp : a.selfLoops = b.selfLoops) {c c' : Change ν}
    (h : c.Alike d c') : SameAnswer Failure.Alike (a.change c).answer (b.change c').answer := by
  cases h with
  | @insertNode x y h =>
    have he : a.hasNode x = b.hasNode y := by rw [ha.nodes, hb.nodes, A.nodes_congr h]
    rw [change, change, Graph.insertNode, Graph.insertNode, he]
    exact .ok _
  | @eraseNode x y h =>
    have he : a.hasNode x = b.hasNode y := by rw [ha.nodes, hb.nodes, A.nodes_congr h]
    rw [change, change, Graph.eraseNode, Graph.eraseNode, he]
    exact .ok _
  | insertEdge s h => exact ha.insertEdge_alike hb hp s h
  | @eraseEdge u v u' v' h =>
    have he : a.hasEdge u v = b.hasEdge u' v' := by rw [ha.edges, hb.edges, A.edges_eq_of_beq h]
    rw [change, change, Graph.eraseEdge, Graph.eraseEdge, he]
    exact .ok _
  | @insertPair s p q h =>
    rw [change_insertPair, change_insertPair, d.admits_congr h]
    split
    · exact ha.insertEdge_alike hb hp s (EdgeKind.edge_fst_snd_congr h ‹_›)
    · exact .error ⟨rfl, .wrongKind h⟩
  | @erasePair s p q h =>
    rw [change_erasePair, change_erasePair, d.admits_congr h]
    split
    · have he : a.hasEdge p.fst p.snd = b.hasEdge q.fst q.snd := by
        rw [ha.edges, hb.edges, A.edges_eq_of_beq (EdgeKind.edge_fst_snd_congr h ‹_›)]
      rw [Graph.eraseEdge, Graph.eraseEdge, he]
      exact .ok _
    · exact .error ⟨rfl, .wrongKind h⟩

theorem Sound.alike (ha : a.Sound) (hb : b.Sound) (hp : a.selfLoops = b.selfLoops) (fa : a.Fits A) (fb : b.Fits A) :
    a.Alike b := by
  have hnode : ∀ x, a.hasNode x = b.hasNode x := by
    intro x
    rw [fa.nodes, fb.nodes]
  have hedge : ∀ u v, a.hasEdge u v = b.hasEdge u v := by
    intro u v
    rw [fa.edges, fb.edges]
  have hpair : ∀ p, a.hasPair p = b.hasPair p := by
    intro p
    rw [hasPair, hasPair, hedge]
  have hneighbors : ∀ side {x y}, x == y → (a.neighbors side x).Alike (b.neighbors side y) := by
    intro side x y hxy
    apply (a.lawful_neighbors side x).alike (b.lawful_neighbors side y)
    intro z
    have hout : a.hasEdge x z = b.hasEdge y z := by rw [a.hasEdge_congr hxy (BEq.refl z), hedge]
    have hin : a.hasEdge z x = b.hasEdge z y := by rw [a.hasEdge_congr (BEq.refl z) hxy, hedge]
    cases side with
    | adjacent => rw [contains_adjacent, contains_adjacent, ha.returned, hb.returned, hin, hout]
    | predecessors => rw [contains_predecessors, contains_predecessors, ha.returned, hb.returned, hin]
    | successors => rw [contains_successors, contains_successors, hout]
  have hincident : ∀ {x y}, x == y → (a.incident x).Alike (b.incident y) := by
    intro x y hxy
    apply (ha.lawful_incident x).alike (hb.lawful_incident y)
    intro p
    rw [ha.contains_incident, hb.contains_incident, hpair, Ends.contains_congr (BEq.refl p) hxy]
  exact {
    selfLoops := hp
    nodes := a.lawful_nodes.alike b.lawful_nodes hnode
    neighbors := hneighbors
    edges := ha.lawful_edges.alike hb.lawful_edges hpair
    incident := hincident
    degree := fun hxy => (hincident hxy).size
    inDegree := fun hxy => by
      rw [← survey_inDegree, ← survey_inDegree]
      exact (hneighbors .predecessors hxy).size
    outDegree := fun hxy => by
      rw [← survey_outDegree, ← survey_outDegree]
      exact (hneighbors .successors hxy).size
    hasEdge := fun h => by rw [ha.hasEdge_congr h, hedge]
    hasPair := fun h => by rw [ha.counted.eq_of_beq h, hpair]
    validate := fun h => by
      rw [EdgeKind.validate, EdgeKind.validate, d.admits_congr h]
      split
      · exact .ok _
      · exact .error (.wrongKind h) }

theorem Sound.change_alike (ha : a.Sound) (hb : b.Sound) (hp : a.selfLoops = b.selfLoops) (fa : a.Fits A)
    (fb : b.Fits A) {c c' : Change ν} (h : c.Alike d c') :
    (a.change c).state.Fits (A.step a.selfLoops c).2 ∧ (b.change c').state.Fits (A.step a.selfLoops c).2 ∧
      (a.change c).Alike (b.change c') := by
  have fa' := (ha.fits_change fa c).2
  -- The shape cannot tell `c'` from `c`, so the second graph follows the same step.
  have fb' : (b.change c').state.Fits (A.step a.selfLoops c).2 := by
    rw [A.step_congr a.selfLoops h, hp]
    exact (hb.fits_change fb c').2
  have hp' : (a.change c).state.selfLoops = (b.change c').state.selfLoops := by
    rw [selfLoops_change, selfLoops_change, hp]
  refine ⟨fa', fb', fa.answer_alike fb hp h, ?_, (ha.change c).alike (hb.change c') hp' fa' fb'⟩
  rw [(ha.change c).equal_iff (hb.change c')]
  exact ⟨fun x => by rw [fa'.nodes, fb'.nodes], fun u v => by rw [fa'.edges, fb'.edges]⟩

theorem Sound.run_alike (ha : a.Sound) (hb : b.Sound) (hp : a.selfLoops = b.selfLoops) (fa : a.Fits A)
    (fb : b.Fits A) {cs cs' : List (Change ν)} (h : List.Forall₂ (Change.Alike d) cs cs') :
    List.Forall₂ Effect.Alike (a.run cs).2 (b.run cs').2 := by
  -- Along both runs at once; that the two graphs fit one shape carries it.
  induction h generalizing a b A with
  | nil => exact .nil
  | @cons c c' cs cs' hc _ ih =>
    obtain ⟨fa', fb', halike⟩ := ha.change_alike hb hp fa fb hc
    have hp' : (a.change c).state.selfLoops = (b.change c').state.selfLoops := by
      rw [selfLoops_change, selfLoops_change, hp]
    exact .cons halike (ih (ha.change c) (hb.change c') hp' fa' fb')

/-- Take two equal graphs with one self-loop policy, and make the same changes on both, with nodes and pairs that are
equal in pairs. Every step gets the same answer or the same kind of error on both; after it the graphs are equal, and
every question about them has the same answer. -/
theorem equal_bisimulation (ha : a.Reachable) (hb : b.Reachable) (hp : a.selfLoops = b.selfLoops)
    (he : a.survey.equal b.survey) {cs cs' : List (Change ν)} (hc : List.Forall₂ (Change.Alike d) cs cs') :
    a.Alike b ∧ List.Forall₂ Effect.Alike (a.run cs).2 (b.run cs').2 := by
  have fa : a.Fits ha.sound.shape := ha.sound.fits_shape
  have fb : b.Fits ha.sound.shape := by
    obtain ⟨hnode, hedge⟩ := (ha.sound.equal_iff hb.sound).1 he
    exact ⟨fun x => (hnode x).symm, fun u v => (hedge u v).symm⟩
  exact ⟨ha.sound.alike hb.sound hp fa fb, ha.sound.run_alike hb.sound hp fa fb hc⟩

/-- An edge between a number and a pair, in two graphs that write both it and the pair in the two orders; then a
self-loop that both refuse, the edge once more, and the end of the pair. -/
theorem equal_bisimulation_swapped :
    let x : Node Atom := .pair (.unordered (.atom (.integer 1)) (.atom (.integer 2)))
    let x' : Node Atom := .pair (.unordered (.atom (.integer 2)) (.atom (.integer 1)))
    let y : Node Atom := .atom (.integer 3)
    let a : Graph (Node Atom) .undirected := ((empty .undirected false).change (.insertEdge .checked x y)).state
    let b : Graph (Node Atom) .undirected := ((empty .undirected false).change (.insertEdge .checked y x')).state
    let cs := [.insertEdge .checked x x', .insertPair .checked (.unordered x y), .eraseNode x]
    let cs' := [.insertEdge .checked x' x, .insertPair .checked (.unordered y x'), .eraseNode x']
    a.survey.equal b.survey ∧ List.Forall₂ Effect.Alike (a.run cs).2 (b.run cs').2 ∧
      (a.run cs).2.map (·.answer.toOption) = [none, some false, some true] := by
  intro x x' y a b cs cs'
  have ha : a.Reachable := (Reachable.empty false).change _
  have hb : b.Reachable := (Reachable.empty false).change _
  have he : a.survey.equal b.survey = true := rfl
  have hc : List.Forall₂ (Change.Alike .undirected) cs cs' :=
    .cons (.insertEdge .checked rfl) (.cons (.insertPair .checked rfl) (.cons (.eraseNode rfl) .nil))
  exact ⟨he, (equal_bisimulation ha hb rfl he hc).2, rfl⟩

end Graph

end GraphViews
