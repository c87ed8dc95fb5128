import GraphViews.Node.Atom
import GraphViews.Proofs.AnyOrder
/-!
# What the check tells of any records

The check is for records that something other than the changes may have put together: any table of any sets, with any
count. `Consistent` says what is asked of such a graph in terms of its entries alone. `check_iff_consistent` says that
the check passes just these graphs, and that halving what it counted hides nothing, since it complains about the records
first wherever that count could be odd.
-/

namespace GraphViews

namespace Graph

variable {ν : Type} [BEq ν] {d : EdgeKind} {g : Graph ν d}

/-- The records list nodes only, those of two nodes agree on the edge from one to the other, no record goes against the
policy, and the count is the number of edges that come up. -/
structure Consistent (g : Graph ν d) : Prop where
  successors_are_nodes : ∀ e ∈ g.records.entries, ∀ y ∈ e.2.successors.items, g.hasNode y
  predecessors_are_nodes : ∀ e ∈ g.records.entries, ∀ y ∈ e.2.predecessors.items, g.hasNode y
  returned : ∀ e ∈ g.records.entries, ∀ e' ∈ g.records.entries,
    e.2.successors.contains e'.1 = e'.2.predecessors.contains e.1
  loopless : g.selfLoops = false → ∀ e ∈ g.records.entries, e.2.successors.contains e.1 = false
  counted : g.edgeCount = g.edges.items.length

/-- A node has an entry, under its own form or another. -/
theorem exists_entry_of_hasNode {x : ν} (h : g.hasNode x) : ∃ e ∈ g.records.entries, x == e.1 :=
  List.any_eq_true.1 h

/-- The scan of the records never complains about the count. -/
theorem recordFault?_ne_wrongEdgeCount (g : Graph ν d) (x : ν) (c : Neighborhood ν d) :
    g.recordFault? x c ≠ some .wrongEdgeCount := by
  have hsuccessor : ∀ y, g.successorFault? x y ≠ some .wrongEdgeCount := by
    intro y
    unfold successorFault?
    cases g.records.find? y with
    | none => simp
    | some c' => cases h : c'.predecessors.contains x <;> simp [h]
  have hpredecessor : ∀ y, g.predecessorFault? x y ≠ some .wrongEdgeCount := by
    intro y
    unfold predecessorFault?
    cases g.records.find? y with
    | none => simp
    | some c' => cases h : c'.successors.contains x <;> simp [h]
  intro h
  rw [recordFault?, Option.or_eq_some_iff, Option.or_eq_some_iff] at h
  obtain h | ⟨-, h | ⟨-, h⟩⟩ := h
  · obtain ⟨y, -, hy⟩ := List.exists_of_findSome?_eq_some h
    exact hsuccessor y hy
  · obtain ⟨y, -, hy⟩ := List.exists_of_findSome?_eq_some h
    exact hpredecessor y hy
  · split at h <;> cases h

variable [EquivBEq ν]

theorem hasEdge_of_mem {e : ν × Neighborhood ν d} (he : e ∈ g.records.entries) (y : ν) :
    g.hasEdge e.1 y = e.2.successors.contains y := by
  rw [hasEdge, Table.find?_of_mem he]
  rfl

theorem hasBackEdge_of_mem {e : ν × Neighborhood ν d} (he : e ∈ g.records.entries) (y : ν) :
    g.hasBackEdge y e.1 = e.2.predecessors.contains y := by
  rw [hasBackEdge, Table.find?_of_mem he]
  rfl

theorem Sound.consistent (hg : g.Sound) : g.Consistent := by
  have hrecords := (g.recordFaults_iff).2 ⟨hg.returned, hg.loopless⟩
  simp only [recordFault?_eq_none_iff] at hrecords
  exact
    { successors_are_nodes := fun e he y hy => hasNode_of_hasBackEdge ((hrecords e he).1 y hy)
      predecessors_are_nodes := fun e he y hy => Graph.hasNode_of_hasEdge ((hrecords e he).2.1 y hy)
      returned := fun e he e' he' => by rw [← hasEdge_of_mem he, ← hasBackEdge_of_mem he', hg.returned]
      loopless := fun hp e he => (hrecords e he).2.2 hp
      counted := hg.lawful_edges.size_eq }

namespace Consistent

/-- An edge that is noted at one end is noted at the other, which has an entry. -/
theorem hasBackEdge_eq (h : g.Consistent) (u v : ν) : g.hasBackEdge u v = g.hasEdge u v := by
  rw [Bool.eq_iff_iff]
  constructor
  · intro hb
    obtain ⟨e, he, hve, hu⟩ := (g.hasBackEdge_iff_entry u v).1 hb
    obtain ⟨y, hy, huy⟩ := (e.2.predecessors.contains_iff_exists u).1 hu
    obtain ⟨e', he', hye'⟩ := exists_entry_of_hasNode (h.predecessors_are_nodes e he y hy)
    have hue' : u == e'.1 := BEq.trans huy hye'
    rw [g.hasEdge_congr hue' hve, hasEdge_of_mem he', h.returned e' he' e he,
      ← e.2.predecessors.contains_congr hue', hu]
  · intro hf
    obtain ⟨e, he, hue, hv⟩ := (g.hasEdge_iff_entry u v).1 hf
    obtain ⟨y, hy, hvy⟩ := (e.2.successors.contains_iff_exists v).1 hv
    obtain ⟨e', he', hye'⟩ := exists_entry_of_hasNode (h.successors_are_nodes e he y hy)
    have hve' : v == e'.1 := BEq.trans hvy hye'
    rw [g.hasBackEdge_congr hue hve', hasBackEdge_of_mem he', ← h.returned e he e' he',
      ← e.2.successors.contains_congr hve', hv]

theorem sound (h : g.Consistent) : g.Sound where
  returned := h.hasBackEdge_eq
  loopless hp u := by
    rw [Bool.eq_false_iff]
    intro hu
    obtain ⟨e, he, hue, hc⟩ := (g.hasEdge_iff_entry u u).1 hu
    rw [e.2.successors.contains_congr hue, h.loopless hp e he] at hc
    cases hc
  counted := by
    rw [h.counted]
    exact .of_distinct g.distinct_edges (elem_edges h.hasBackEdge_eq)

end Consistent

/-- Whatever the records are, the edges that come up are the edges they list, each once. -/
theorem hasCount_listedEdges (g : Graph ν d) : HasCount g.listedEdges.contains g.edges.items.length := by
  refine .of_distinct g.distinct_edges fun p => ?_
  cases d with
  | directed => rfl
  | undirected => exact ItemSet.contains_ofList g.listedEdges p

/-- Where no record is at fault, what the scan counted is twice the number of edges that come up. -/
theorem doubledCount_of_no_fault (h : ∀ e ∈ g.records.entries, g.recordFault? e.1 e.2 = none) :
    g.doubledCount = 2 * g.edges.items.length :=
  doubledCount_eq ((g.recordFaults_iff).1 h).1

theorem check_eq_wrongEdgeCount_iff (g : Graph ν d) : g.check = .error .wrongEdgeCount ↔
    (∀ e ∈ g.records.entries, g.recordFault? e.1 e.2 = none) ∧ g.edgeCount ≠ g.edges.items.length := by
  have hfault : g.check = .error .wrongEdgeCount ↔ g.fault? = some .wrongEdgeCount := by
    unfold check
    cases g.fault? <;> simp
  rw [hfault, fault?, Option.or_eq_some_iff, List.findSome?_eq_none_iff]
  constructor
  · rintro (h | ⟨hrecords, h⟩)
    · obtain ⟨e, -, he⟩ := List.exists_of_findSome?_eq_some h
      exact absurd he (g.recordFault?_ne_wrongEdgeCount e.1 e.2)
    · rw [doubledCount_of_no_fault hrecords, Nat.mul_div_cancel_left _ (by omega)] at h
      refine ⟨hrecords, fun hcount => ?_⟩
      rw [hcount, beq_self_eq_true, if_pos rfl] at h
      cases h
  · rintro ⟨hrecords, hcount⟩
    have hcount' : (g.edges.items.length == g.edgeCount) = false := by simpa using Ne.symm hcount
    refine .inr ⟨hrecords, ?_⟩
    rw [doubledCount_of_no_fault hrecords, Nat.mul_div_cancel_left _ (by omega), hcount']
    rfl

/-- Take any table of records, any count and any policy, whether or not changes lead to them. The check passes if and
only if they are consistent: whatever a record lists is a node, one node lists another as a successor exactly when that
one lists it as a predecessor, no node is its own successor against the policy, and the count is the number of edges
that come up, which is the number of distinct edges that the records list. Where the records are not at fault, the scan
counted each of these edges twice, so the check complains about the count exactly when the count is wrong. -/
theorem check_iff_consistent (g : Graph ν d) :
    (g.check = .ok () ↔ g.Consistent) ∧ HasCount g.listedEdges.contains g.edges.items.length ∧
    ((∀ e ∈ g.records.entries, g.recordFault? e.1 e.2 = none) → g.doubledCount = 2 * g.edges.items.length) ∧
    (g.check = .error .wrongEdgeCount ↔
      (∀ e ∈ g.records.entries, g.recordFault? e.1 e.2 = none) ∧ g.edgeCount ≠ g.edges.items.length) := by
  refine ⟨?_, g.hasCount_listedEdges, doubledCount_of_no_fault, g.check_eq_wrongEdgeCount_iff⟩
  rw [check_eq_ok_iff]
  exact ⟨Sound.consistent, Consistent.sound⟩

/-- An undirected edge that only one end lists, next to a self-loop. With that end the scan counts three and a count of
one would pass, if it came to it; with both ends listing it a count of one is found out, and a count of two passes. -/
theorem check_iff_consistent_lopsided :
    let x : Node Atom := .pair (.unordered (.atom (.integer 1)) (.atom (.integer 2)))
    let x' : Node Atom := .pair (.unordered (.atom (.integer 2)) (.atom (.integer 1)))
    let y : Node Atom := .atom (.integer 3)
    let lists (ys : List (Node Atom)) : Neighborhood (Node Atom) .undirected := .shared (.ofList ys)
    let lopsided := (Table.empty.put x (lists [x', y])).put y (lists [])
    let level := (Table.empty.put x (lists [x', y])).put y (lists [x'])
    let g : Graph (Node Atom) .undirected := ⟨true, lopsided, 1⟩
    let g' : Graph (Node Atom) .undirected := ⟨true, level, 1⟩
    let g'' : Graph (Node Atom) .undirected := ⟨true, level, 2⟩
    (g.doubledCount / 2 = g.edgeCount ∧ g.edges.items.length = 2 ∧ ¬ g.Consistent) ∧
    (g'.check = .error .wrongEdgeCount ∧ g'.doubledCount = 2 * g'.edges.items.length) ∧ g''.Consistent := by
  intro x x' y lists lopsided level g g' g''
  obtain ⟨hpasses, -, -, -⟩ := check_iff_consistent g
  obtain ⟨-, -, hdoubled, hwrong⟩ := check_iff_consistent g'
  have hcheck : g'.check = .error .wrongEdgeCount := by decide +kernel
  refine ⟨⟨by decide +kernel, by decide +kernel, fun h => ?_⟩, ⟨hcheck, hdoubled (hwrong.1 hcheck).1⟩, ?_⟩
  · have hok := hpasses.2 h
    revert hok
    decide +kernel
  · exact (check_iff_consistent g'').1.1 (by decide +kernel)

end Graph

end GraphViews
