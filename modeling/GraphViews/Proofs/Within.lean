import GraphViews.Proofs.Combined
/-!
# Changes that only add, and changes that only remove

Every change to a set or a graph either adds or removes. What is in the sets of a store before a change that adds
is in them after it (`within_change`), and the other way around for a change that removes
(`Grown.change_within`). That speaks of stored items, nodes and edges; the neighbors of a node and the edges at it
follow (`Within.look`), because in a sound graph the edges tell them.
-/

namespace GraphViews

namespace ItemSet

variable {α : Type} [BEq α] [EquivBEq α] {s : ItemSet α} {c : SetChange α} {x : α}

theorem contains_change (h : c.inserts) (hx : s.contains x) : (s.change c).2.contains x := by
  cases c with
  | add y => simp [change, add, contains_insert, hx]
  | addAll ys => simp [change, snd_addAll, contains_extend, hx]
  | extend ys => simp [change, contains_extend, hx]
  | remove y | removeAll ys | clear => cases h

theorem contains_of_contains_change (h : c.inserts = false) (hx : (s.change c).2.contains x) : s.contains x := by
  cases c with
  | remove y =>
    rw [change, remove, contains_erase, Bool.and_eq_true] at hx
    exact hx.2
  | removeAll ys => exact contains_of_contains_removeAll hx
  | clear => cases hx
  | add y | addAll ys | extend ys => cases h

end ItemSet

variable {ν : Type} [BEq ν] {d : EdgeKind}

namespace Graph

variable [EquivBEq ν] {g : Graph ν d} {c : Change ν}

/-- What is in a graph stays there while things are inserted. -/
theorem kept_change (h : c.inserts) :
    (∀ x, g.hasNode x → (g.change c).state.hasNode x) ∧ ∀ p, g.hasPair p → (g.change c).state.hasPair p := by
  have hedge : ∀ s u v, (∀ x, g.hasNode x → (g.insertEdge s u v).state.hasNode x) ∧
      ∀ p, g.hasPair p → (g.insertEdge s u v).state.hasPair p := by
    intro s u v
    rw [insertEdge_eq]
    split
    · exact ⟨fun _ hx => hx, fun _ hp => hp⟩
    · refine ⟨fun x hx => ?_, fun p hp => ?_⟩
      · simp [hasNode_withEdge, hx]
      · simp [hasPair_withEdge, hp]
  cases c with
  | insertNode x =>
    refine ⟨fun y hy => ?_, fun p hp => ?_⟩
    · simp [change, insertNode, hasNode_withNode, hy]
    · simpa [change, insertNode, hasPair, hasEdge_withNode] using hp
  | insertEdge s u v => exact hedge s u v
  | insertPair s p =>
    rw [change_insertPair]
    split
    · exact hedge s p.fst p.snd
    · exact ⟨fun _ hx => hx, fun _ hp => hp⟩
  | eraseNode x | eraseEdge u v | erasePair s p => cases h

/-- Nothing new is in a graph after things are erased. -/
theorem Sound.kept_of_change (hg : g.Sound) (h : c.inserts = false) :
    (∀ x, (g.change c).state.hasNode x → g.hasNode x) ∧ ∀ p, (g.change c).state.hasPair p → g.hasPair p := by
  have hedge : ∀ u v, (∀ x, (g.withoutEdge u v).hasNode x → g.hasNode x) ∧
      ∀ p, (g.withoutEdge u v).hasPair p → g.hasPair p := by
    intro u v
    refine ⟨fun x hx => ?_, fun p hp => ?_⟩
    · rwa [hasNode_withoutEdge] at hx
    · rw [hasPair_withoutEdge, Bool.and_eq_true] at hp
      exact hp.1
  cases c with
  | eraseNode x =>
    refine ⟨fun y hy => ?_, fun p hp => ?_⟩
    · rw [Graph.change, eraseNode, hasNode_withoutNode hg.returned, Bool.and_eq_true] at hy
      exact hy.1
    · rw [Graph.change, eraseNode, hasPair_withoutNode hg.returned, Bool.and_eq_true] at hp
      exact hp.1
  | eraseEdge u v => exact hedge u v
  | erasePair s p =>
    rw [change_erasePair]
    split
    · exact hedge p.fst p.snd
    · exact ⟨fun _ hx => hx, fun _ hp => hp⟩
  | insertNode x | insertEdge s u v | insertPair s p => cases h

end Graph

namespace Store

variable {s t u : Store ν} {kind : ItemKind}

/-! ### What a mutation comes to -/

theorem getElem?_change_graph (s : Store ν) (id : Nat) (c : Change ν) :
    (s.change (.graph id c)).graphs[id]? = (s.graphs[id]?).map fun g => (g.change c).state := by
  simp only [change]
  cases hg : s.graphs[id]? with
  | none => simpa using hg
  | some g => simp [setGraph, List.getElem?_set_self (List.getElem?_eq_some_iff.1 hg).1]

theorem getElem?_change_set (s : Store ν) (kind : ItemKind) (id : Nat) (c : SetChange (kind.Item ν)) :
    ((s.change (.set kind id c)).sets kind)[id]? = ((s.sets kind)[id]?).map fun set => (set.change c).2 := by
  simp only [change]
  cases hs : (s.sets kind)[id]? with
  | none => simpa using hs
  | some set =>
    have hlt := (List.getElem?_eq_some_iff.1 hs).1
    cases kind with
    | node => exact List.getElem?_set_self hlt
    | edge => exact List.getElem?_set_self hlt

/-- How the sets of a store before and after a mutation are related: as those of the one object that it changes. -/
theorem look_change_rel {R : {α : Type} → Reading α → Reading α → Prop} (hrefl : ∀ {α : Type} (r : Reading α), R r r)
    {s : Store ν} {m : Mutation ν}
    (hset : ∀ kind id c set, m = .set kind id c → (s.sets kind)[id]? = some set →
      R set.reading (set.change c).2.reading)
    (hgraph : ∀ id c g, m = .graph id c → s.graphs[id]? = some g →
      R g.graph.nodes (g.graph.change c).state.nodes ∧ R g.graph.edges (g.graph.change c).state.edges) :
    (∀ kind id, R (s.look (.stored kind id)) ((s.change m).look (.stored kind id))) ∧
      (∀ id, R (s.look (.nodes id)) ((s.change m).look (.nodes id))) ∧
      ∀ id, R (s.look (.edges id)) ((s.change m).look (.edges id)) := by
  have hother : ∀ {kind : ItemKind} (l : Leaf ν kind), l.touchedBy m = false → R (s.look l) ((s.change m).look l) := by
    intro kind l hl
    rw [look_change_of_not_touchedBy _ _ _ hl]
    exact hrefl _
  cases m with
  | set kind' id' c =>
    refine ⟨fun kind id => ?_, fun id => hother _ rfl, fun id => hother _ rfl⟩
    by_cases ht : (Leaf.stored kind id : Leaf ν kind).touchedBy (.set kind' id' c)
    · obtain ⟨rfl, rfl⟩ : kind = kind' ∧ id = id' := by simpa [Leaf.touchedBy] using ht
      rw [look, look, getElem?_change_set]
      cases hs : (s.sets kind)[id]? with
      | none => exact hrefl _
      | some set => exact hset kind id c set rfl hs
    · exact hother _ (Bool.eq_false_iff.2 ht)
  | graph id' c =>
    refine ⟨fun kind id => hother _ rfl, fun id => ?_, fun id => ?_⟩
    · by_cases hid : id = id'
      · subst hid
        rw [look, look, getElem?_change_graph]
        cases hg : s.graphs[id]? with
        | none => exact hrefl _
        | some g => exact (hgraph id c g rfl hg).1
      · exact hother _ (by simpa [Leaf.touchedBy] using hid)
    · by_cases hid : id = id'
      · subst hid
        rw [look, look, getElem?_change_graph]
        cases hg : s.graphs[id]? with
        | none => exact hrefl _
        | some g => exact (hgraph id c g rfl hg).2
      · exact hother _ (by simpa [Leaf.touchedBy] using hid)

/-! ### Stores that hold what another holds -/

/-- All items of stored sets and all nodes and edges of graphs that are in the first store are in the second. -/
structure Within (s t : Store ν) : Prop where
  items : ∀ kind id x, (s.look (.stored kind id)).contains x → (t.look (.stored kind id)).contains x
  nodes : ∀ id x, (s.look (.nodes id)).contains x → (t.look (.nodes id)).contains x
  edges : ∀ id p, (s.look (.edges id)).contains p → (t.look (.edges id)).contains p

theorem Within.refl (s : Store ν) : s.Within s := ⟨fun _ _ _ h => h, fun _ _ h => h, fun _ _ h => h⟩

theorem Within.trans (h : s.Within t) (k : t.Within u) : s.Within u where
  items kind id x hx := k.items kind id x (h.items kind id x hx)
  nodes id x hx := k.nodes id x (h.nodes id x hx)
  edges id p hp := k.edges id p (h.edges id p hp)

/-- Whether the edge set of a graph holds the pair from `u` to `v`, of either kind. -/
def joins (s : Store ν) (id : Nat) (u v : ν) : Bool :=
  (s.look (.edges id)).contains (.ordered u v) || (s.look (.edges id)).contains (.unordered u v)

theorem joins_eq (id : Nat) (u v : ν) : s.joins id u v = (s.graphs[id]?).any fun g => g.graph.hasEdge u v := by
  simp only [joins, look, Reading.contains_getD]
  cases s.graphs[id]? with
  | none => rfl
  | some g =>
    obtain ⟨d, g⟩ := g
    cases d <;> simp [Graph.edges, Graph.hasPair, EdgeKind.admits]

section
variable [EquivBEq ν]

/-- In a sound graph the neighbors of a node are told by the edges. -/
theorem Grown.contains_neighbors (h : s.Grown) (id : Nat) (side : Side) (x y : ν) :
    (s.look (.neighbors id side x)).contains y =
      match side with
      | .adjacent => s.joins id y x || s.joins id x y
      | .predecessors => s.joins id y x
      | .successors => s.joins id x y := by
  simp only [joins_eq, look, Reading.contains_getD]
  cases hg : s.graphs[id]? with
  | none => cases side <;> rfl
  | some g =>
    have hback := (h.sound hg).returned
    cases side <;> simp [Graph.contains_adjacent, Graph.contains_predecessors, Graph.contains_successors, hback]

theorem Grown.contains_incident (h : s.Grown) (id : Nat) (x : ν) (p : Ends ν) :
    (s.look (.incident id x)).contains p = ((s.look (.edges id)).contains p && p.contains x) := by
  simp only [look, Reading.contains_getD]
  cases hg : s.graphs[id]? with
  | none => rfl
  | some g => exact (h.sound hg).contains_incident x p

/-- Every set that a leaf refers to only gains. -/
theorem Within.look (h : s.Within t) (hs : s.Grown) (ht : t.Grown) (l : Leaf ν kind) (x : kind.Item ν)
    (hx : (s.look l).contains x) : (t.look l).contains x := by
  have hjoins : ∀ id u v, s.joins id u v → t.joins id u v := by
    intro id u v huv
    rw [joins, Bool.or_eq_true] at huv ⊢
    exact huv.imp (h.edges id _) (h.edges id _)
  cases l with
  | stored kind id => exact h.items kind id x hx
  | nodes id => exact h.nodes id x hx
  | edges id => exact h.edges id x hx
  | neighbors id side y =>
    rw [hs.contains_neighbors] at hx
    rw [ht.contains_neighbors]
    cases side with
    | adjacent =>
      rw [Bool.or_eq_true] at hx ⊢
      exact hx.imp (hjoins id x y) (hjoins id y x)
    | predecessors => exact hjoins id x y hx
    | successors => exact hjoins id y x hx
  | incident id y =>
    rw [hs.contains_incident, Bool.and_eq_true] at hx
    rw [ht.contains_incident, Bool.and_eq_true]
    exact ⟨h.edges id x hx.1, hx.2⟩

/-- A mutation that adds takes nothing away. -/
theorem within_change (s : Store ν) {m : Mutation ν} (h : m.inserts) : s.Within (s.change m) := by
  obtain ⟨hitems, hnodes, hedges⟩ := look_change_rel (s := s) (m := m)
    (R := fun r r' => ∀ x, r.contains x → r'.contains x) (fun _ _ hx => hx)
    (by rintro kind id c set rfl -; exact fun x => ItemSet.contains_change h)
    (by rintro id c g rfl -; exact Graph.kept_change h)
  exact ⟨hitems, hnodes, hedges⟩

/-- A mutation that removes adds nothing. -/
theorem Grown.change_within (hs : s.Grown) {m : Mutation ν} (h : m.inserts = false) : (s.change m).Within s := by
  obtain ⟨hitems, hnodes, hedges⟩ := look_change_rel (s := s) (m := m)
    (R := fun r r' => ∀ x, r'.contains x → r.contains x) (fun _ _ hx => hx)
    (by rintro kind id c set rfl -; exact fun x => ItemSet.contains_of_contains_change h)
    (by rintro id c g rfl hg; exact (hs.sound hg).kept_of_change h)
  exact ⟨hitems, hnodes, hedges⟩

end

end Store

end GraphViews
