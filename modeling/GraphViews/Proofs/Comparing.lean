import GraphViews.Proofs.Combined
/-!
# Comparing sets and graphs

Two sets are compared by their sizes and by one inclusion, two graphs by the kind of their edges and by their sets. For
lawful sets that decides whether they contain the same items, `Reading.Lawful.equal_iff` says, so it matters neither
which of the two comes first nor what they are made of nor how their items are written. Whatever compares things by
what they come to is an equivalence (`equivalence_of_iff`).
-/

namespace GraphViews

theorem equivalence_of_iff {β : Type*} {γ : Sort*} {r : β → β → Prop} (f : β → γ) (h : ∀ a b, r a b ↔ f a = f b) :
    Equivalence r where
  refl a := (h a a).2 rfl
  symm hab := (h _ _).2 ((h _ _).1 hab).symm
  trans hab hbc := (h _ _).2 (((h _ _).1 hab).trans ((h _ _).1 hbc))

/-! ## Sets -/

section
variable {α : Type} [BEq α] [EquivBEq α] {a b : Reading α}

/-- Equal readings are those with items that are equal one to one. -/
theorem Reading.Lawful.equal_iff_items (ha : a.Lawful) (hb : b.Lawful) :
    a.equal b ↔ (∀ x ∈ a.items, ∃ y ∈ b.items, x == y) ∧ ∀ y ∈ b.items, ∃ x ∈ a.items, y == x := by
  have hsub : ∀ {a b : Reading α}, a.Lawful → b.Lawful → (∀ x ∈ a.items, ∃ y ∈ b.items, x == y) → ∀ x,
      a.contains x → b.contains x := by
    intro a b ha hb h x hx
    rw [ha.contains_eq, elem_iff] at hx
    obtain ⟨y, hy, hxy⟩ := hx
    obtain ⟨z, hz, hyz⟩ := h y hy
    rw [hb.contains_eq, elem_iff]
    exact ⟨z, hz, BEq.trans hxy hyz⟩
  rw [ha.equal_iff hb]
  constructor
  · intro h
    refine ⟨fun x hx => ?_, fun y hy => ?_⟩
    · rw [← elem_iff, ← hb.contains_eq, ← h]
      exact ha.contains_of_mem hx
    · rw [← elem_iff, ← ha.contains_eq, h]
      exact hb.contains_of_mem hy
  · rintro ⟨hab, hba⟩ x
    exact Bool.eq_iff_iff.2 ⟨hsub ha hb hab x, hsub hb ha hba x⟩

/-- A missing set equals a missing set only, and otherwise the contents decide. -/
theorem Reading.equal?_iff {o p : Option (Reading α)} (ho : ∀ a ∈ o, a.Lawful) (hp : ∀ b ∈ p, b.Lawful) :
    Reading.equal? o p ↔ o.map (·.contains) = p.map (·.contains) := by
  cases o with
  | none => cases p <;> simp [Reading.equal?]
  | some a =>
    cases p with
    | none => simp [Reading.equal?]
    | some b =>
      have hab := (ho a rfl).equal_iff (hp b rfl)
      simp [Reading.equal?, hab, funext_iff]

theorem ItemSet.beq_iff (a b : ItemSet α) : a == b ↔ ∀ x, a.contains x = b.contains x :=
  a.lawful_reading.equal_iff b.lawful_reading

end

/-! ## Graphs -/

variable {ν : Type} [BEq ν] [EquivBEq ν]

namespace AnyGraph

theorem equal_iff {g h : AnyGraph ν} (hg : g.graph.Sound) (hh : h.graph.Sound) : g.survey.equal h.survey ↔
    g.edgeKind = h.edgeKind ∧ (∀ x, g.graph.hasNode x = h.graph.hasNode x) ∧
      ∀ u v, g.graph.hasEdge u v = h.graph.hasEdge u v := by
  obtain ⟨d, g⟩ := g
  obtain ⟨d', h⟩ := h
  by_cases hd : d = d'
  · subst hd
    simp only [survey, true_and]
    exact Graph.Sound.equal_iff hg hh
  · have hkind : (d == d') = false := beq_eq_false_iff_ne.2 hd
    simp [survey, Survey.equal, Graph.survey, hkind, hd]

/-- Between nodes that are not there, there are no edges to compare. -/
theorem equal_iff_nodes {g h : AnyGraph ν} (hg : g.graph.Sound) (hh : h.graph.Sound) : g.survey.equal h.survey ↔
    g.edgeKind = h.edgeKind ∧ (∀ x, g.graph.hasNode x = h.graph.hasNode x) ∧
      ∀ u v, g.graph.hasNode u → g.graph.hasNode v → g.graph.hasEdge u v = h.graph.hasEdge u v := by
  rw [equal_iff hg hh]
  refine and_congr_right fun _ => and_congr_right fun hnode => ⟨fun hall u v _ _ => hall u v, fun hall u v => ?_⟩
  by_cases huv : g.graph.hasNode u ∧ g.graph.hasNode v
  · exact hall u v huv.1 huv.2
  · have hgno : g.graph.hasEdge u v = false := Bool.eq_false_iff.2 fun he => huv (hg.hasNode_of_hasEdge he)
    have hhno : h.graph.hasEdge u v = false := by
      refine Bool.eq_false_iff.2 fun he => huv ?_
      rw [hnode, hnode]
      exact hh.hasNode_of_hasEdge he
    rw [hgno, hhno]

end AnyGraph

/-! ## What comparing decides -/

namespace Store

/-- Two sets of a store are equal just when they are the same set, and so are two graphs. -/
structure Compares (s : Store ν) (kind : ItemKind) : Prop where
  sets : ∀ v w : View (Leaf ν kind),
    (s.read v).equal (s.read w) ↔ ∀ x, (s.read v).contains x = (s.read w).contains x
  items : ∀ v w : View (Leaf ν kind), (s.read v).equal (s.read w) ↔
    (∀ x ∈ (s.read v).items, ∃ y ∈ (s.read w).items, x == y) ∧ ∀ y ∈ (s.read w).items, ∃ x ∈ (s.read v).items, y == x
  sets_equivalence : Equivalence fun v w : View (Leaf ν kind) => (s.read v).equal (s.read w) = true
  /-- Sets that may be missing: a missing set equals a missing set only. -/
  missing : ∀ v w : Option (View (Leaf ν kind)), Reading.equal? (v.map s.read) (w.map s.read) ↔
    (v = none ∧ w = none) ∨ ∃ a b, v = some a ∧ w = some b ∧ ∀ x, (s.read a).contains x = (s.read b).contains x
  missing_equivalence :
    Equivalence fun v w : Option (View (Leaf ν kind)) => Reading.equal? (v.map s.read) (w.map s.read) = true
  stored : ∀ a b : ItemSet (kind.Item ν), a == b ↔ ∀ x, a.contains x = b.contains x
  stored_equivalence : Equivalence fun a b : ItemSet (kind.Item ν) => (a == b) = true
  /-- Neither the histories of two graphs count nor whether they allow self-loops. -/
  graphs : ∀ g h : AnyGraph ν, g.graph.Reachable → h.graph.Reachable → (g.survey.equal h.survey ↔
    g.edgeKind = h.edgeKind ∧ (∀ x, g.graph.hasNode x = h.graph.hasNode x) ∧
      ∀ u v, g.graph.hasNode u → g.graph.hasNode v → g.graph.hasEdge u v = h.graph.hasEdge u v)
  graphs_equivalence :
    Equivalence fun g h : { g : AnyGraph ν // g.graph.Reachable } => g.1.survey.equal h.1.survey = true

/-- However a store came about, comparing two of its sets, whatever each of them is, or two reachable graphs decides
whether they are the same; so comparing is an equivalence. -/
theorem comparisons_decide {s : Store ν} (hs : s.Grown) (kind : ItemKind) : s.Compares kind := by
  have hread : ∀ v : View (Leaf ν kind), (s.read v).Lawful := hs.lawful_read
  have hmissing : ∀ v w : Option (View (Leaf ν kind)), Reading.equal? (v.map s.read) (w.map s.read) ↔
      v.map (fun v => (s.read v).contains) = w.map fun w => (s.read w).contains := by
    intro v w
    have hlawful : ∀ v : Option (View (Leaf ν kind)), ∀ a ∈ v.map s.read, a.Lawful := by
      intro v a ha
      obtain ⟨u, -, rfl⟩ := Option.map_eq_some_iff.1 ha
      exact hread u
    rw [Reading.equal?_iff (hlawful v) (hlawful w), Option.map_map, Option.map_map]
    rfl
  exact {
    sets := fun v w => (hread v).equal_iff (hread w)
    items := fun v w => (hread v).equal_iff_items (hread w)
    sets_equivalence := equivalence_of_iff (fun v => (s.read v).contains) fun v w => by
      rw [(hread v).equal_iff (hread w), funext_iff]
    missing := fun v w => by
      rw [hmissing]
      cases v <;> cases w <;> simp [funext_iff]
    missing_equivalence := equivalence_of_iff _ hmissing
    stored := ItemSet.beq_iff
    stored_equivalence := equivalence_of_iff ItemSet.contains fun a b => by rw [ItemSet.beq_iff, funext_iff]
    graphs := fun g h hg hh => AnyGraph.equal_iff_nodes hg.sound hh.sound
    graphs_equivalence :=
      equivalence_of_iff (fun g => (g.1.edgeKind, g.1.graph.hasNode, g.1.graph.hasEdge)) fun g h => by
        rw [AnyGraph.equal_iff g.2.sound h.2.sound]
        simp only [Prod.mk.injEq, funext_iff] }

/-- The nodes of a directed graph and a union of stored sets that overlap, with a node written in two ways; and two
graphs without directions that came about in different ways and write their edge in opposite orders. -/
theorem comparisons_decide_overlapping :
    let x : Node Atom := .pair (.unordered (.atom (.integer 1)) (.atom (.integer 2)))
    let x' : Node Atom := .pair (.unordered (.atom (.integer 2)) (.atom (.integer 1)))
    let y : Node Atom := .atom (.integer 3)
    let g : AnyGraph (Node Atom) := ⟨.directed, ({ selfLoops := true } : Settings .directed).build⟩
    let set : ItemSet (ItemKind.node.Item (Node Atom)) := ItemSet.ofList [x]
    let set' : ItemSet (ItemKind.node.Item (Node Atom)) := ItemSet.ofList [x', y]
    let insertion : Mutation (Node Atom) := .graph 0 (.insertEdge .checked x' y)
    let s := (((({} : Store (Node Atom)).addGraph g).addSet set).addSet set').change insertion
    let v : View (Leaf (Node Atom) .node) := .leaf (.nodes 0)
    let w : View (Leaf (Node Atom) .node) := .held .cell (.union (.leaf (.stored .node 0)) (.leaf (.stored .node 1)))
    let a := ((Graph.empty .undirected true).run [.insertEdge .checked x y]).1
    let b := ((Graph.empty .undirected false).run [.insertNode y, .insertEdge .checked x' y]).1
    s.Grown ∧ (s.read v).items = [y, x'] ∧ (s.read w).items = [x, y] ∧ (s.read w).equal (s.read v) ∧
      (∀ z, (s.read v).contains z = (s.read w).contains z) ∧
      a.edges.items = [.unordered y x] ∧ b.edges.items = [.unordered x' y] ∧
      ∀ u z, a.hasNode u → a.hasNode z → a.hasEdge u z = b.hasEdge u z := by
  intro x x' y g set set' insertion s v w a b
  have hs : s.Grown := (((Grown.empty.build .directed { selfLoops := true }).addSet set).addSet set').change _
  have ha : a.Reachable := ((Graph.Reachable.empty true).run [.insertEdge .checked x y]).1
  have hb : b.Reachable := ((Graph.Reachable.empty false).run [.insertNode y, .insertEdge .checked x' y]).1
  have hvw : (s.read v).equal (s.read w) := rfl
  have hab : a.survey.equal b.survey := rfl
  have h := comparisons_decide hs .node
  obtain ⟨-, -, hedges⟩ := (h.graphs ⟨.undirected, a⟩ ⟨.undirected, b⟩ ha hb).1 hab
  exact ⟨hs, rfl, rfl, h.sets_equivalence.symm hvw, (h.sets v w).1 hvw, rfl, rfl, hedges⟩

end Store

end GraphViews
