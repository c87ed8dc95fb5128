import GraphViews.Node.Atom
import GraphViews.Proofs.AnyOrder
import GraphViews.Proofs.Degrees
import GraphViews.Proofs.Forms
import GraphViews.Proofs.Loops
/-!
# Erasing a node by its neighbors alone

The erasure of a node looks up the neighbors that its record lists and no other record, and lowers the count by a number
that it takes from that record alone. `Graph.purged` goes through everything instead: it strikes the node out of all
records and counts the edges that have it as an end. `Sound.withoutNode_eq_purged` says that the two come to the same
graph, with the same forms everywhere.
-/

namespace GraphViews

namespace Table

variable {κ α : Type} [BEq κ]

/-- The table with every value put through `f`. -/
def mapValues (t : Table κ α) (f : α → α) : Table κ α where
  entries := t.entries.map fun e => (e.1, f e.2)
  distinct := by
    rw [List.map_map]
    exact t.distinct

theorem keys_mapValues (t : Table κ α) (f : α → α) : (t.mapValues f).keys = t.keys := by
  rw [keys, mapValues, List.map_map]
  rfl

theorem find?_mapValues (t : Table κ α) (f : α → α) (k : κ) : (t.mapValues f).find? k = (t.find? k).map f := by
  rw [find?, mapValues, List.find?_map, Option.map_map, find?, Option.map_map]
  rfl

end Table

namespace Graph

variable {ν : Type} [BEq ν] {d : EdgeKind} {g : Graph ν d}

/-- The graph without the node `x`, by going through all of it: the record of `x` is left out, `x` is struck out of both
sides of every other record, and the edges that have `x` as an end are no longer counted. -/
def purged (g : Graph ν d) (x : ν) : Graph ν d where
  selfLoops := g.selfLoops
  records := (g.records.erase x).mapValues (·.without x)
  edgeCount := g.edgeCount - g.edges.items.countP (·.contains x)

/-- The node is there, and no edge is at it, however one asks. -/
structure Isolated (g : Graph ν d) (x : ν) : Prop where
  hasNode : g.hasNode x
  hasEdge : ∀ y, g.hasEdge x y = false ∧ g.hasEdge y x = false
  neighbors : ∀ side, (g.neighbors side x).Vacant
  incident : (g.incident x).Vacant
  degrees : g.degree x = 0 ∧ g.inDegree x = 0 ∧ g.outDegree x = 0

/-- No edge is at a node that is not there. -/
theorem Sound.hasEdge_of_absent (hg : g.Sound) {x : ν} (hx : g.hasNode x = false) (y : ν) :
    g.hasEdge x y = false ∧ g.hasEdge y x = false := by
  constructor
  · rw [Bool.eq_false_iff]
    intro h
    rw [(hg.hasNode_of_hasEdge h).1] at hx
    cases hx
  · rw [Bool.eq_false_iff]
    intro h
    rw [(hg.hasNode_of_hasEdge h).2] at hx
    cases hx

variable [EquivBEq ν]

/-- After going through all records, none lists `x`. -/
theorem not_listed_purged (g : Graph ν d) (x : ν) : ∀ e ∈ (g.purged x).records.entries, (x == e.1) = false ∧
    e.2.predecessors.contains x = false ∧ e.2.successors.contains x = false := by
  intro e' he'
  obtain ⟨e, he, rfl⟩ := List.mem_map.1 he'
  obtain ⟨-, hkey⟩ := List.mem_filter.1 he
  rw [Neighborhood.predecessors_without, Neighborhood.successors_without]
  exact ⟨by simpa using hkey, ItemSet.contains_erase_self _ x, ItemSet.contains_erase_self _ x⟩

namespace Sound

/-- Looking up the neighbors of a node and going through all records come to the same graph without it. -/
theorem withoutNode_eq_purged (hg : g.Sound) (x : ν) : g.withoutNode x = g.purged x := by
  refine eq_of_fields (g.selfLoops_withoutNode x) (Table.eq_of_find? ?_ fun k => ?_) ?_
  · rw [keys_withoutNode, purged, Table.keys_mapValues, Table.keys_erase]
  · rw [find?_withoutNode hg.returned, purged, Table.find?_mapValues, Table.find?_erase]
    split <;> rfl
  · rw [edgeCount_withoutNode, hg.degree_eq_countP]
    rfl

/-- A node that is put in where there was none has no edges. -/
theorem isolated_withNode (hg : g.Sound) {x : ν} (hx : g.hasNode x = false) : (g.withNode x).Isolated x := by
  have hg' : (g.withNode x).Sound := hg.withNode x
  have hedge : ∀ y, (g.withNode x).hasEdge x y = false ∧ (g.withNode x).hasEdge y x = false := by
    intro y
    rw [hasEdge_withNode, hasEdge_withNode]
    exact hg.hasEdge_of_absent hx y
  have hneighbors : ∀ side, ((g.withNode x).neighbors side x).Vacant := by
    intro side
    refine ((g.withNode x).lawful_neighbors side x).vacant ⟨.nil, fun y => ?_⟩
    cases side with
    | adjacent => rw [contains_adjacent, hg'.returned, (hedge y).1, (hedge y).2]; rfl
    | predecessors => rw [contains_predecessors, hg'.returned, (hedge y).2]; rfl
    | successors => rw [contains_successors, (hedge y).1]; rfl
  have hincident : ((g.withNode x).incident x).Vacant := by
    refine (hg'.lawful_incident x).vacant ⟨.nil, fun p => ?_⟩
    change _ = false
    rw [hg'.contains_incident, Bool.eq_false_iff, ne_eq, hasPair, Bool.and_eq_true, Bool.and_eq_true, Ends.contains,
      Bool.or_eq_true]
    rintro ⟨⟨-, hp⟩, hx | hx⟩
    · rw [Graph.hasEdge_congr _ hx BEq.rfl, (hedge p.snd).1] at hp
      cases hp
    · rw [Graph.hasEdge_congr _ BEq.rfl hx, (hedge p.fst).2] at hp
      cases hp
  refine ⟨?_, hedge, hneighbors, hincident, hincident.size, ?_, ?_⟩
  · rw [hasNode_withNode, BEq.rfl, Bool.true_or]
  · rw [← survey_inDegree]
    exact (hneighbors .predecessors).size
  · rw [← survey_outDegree]
    exact (hneighbors .successors).size

/-- As many edges are no longer counted as have the node as an end. -/
theorem edgeCount_purged_add (hg : g.Sound) (x : ν) :
    (g.purged x).edgeCount + g.edges.items.countP (·.contains x) = g.edgeCount := by
  have hle : g.edges.items.countP (·.contains x) ≤ g.edges.items.length := List.countP_le_length
  have hsize : g.edgeCount = g.edges.items.length := hg.lawful_edges.size_eq
  change g.edgeCount - _ + _ = g.edgeCount
  omega

end Sound

/-- Take any graph that changes lead to, and erase a node, written in any way. It comes to the same graph as going
through all of it: the record of the node is gone, the node is struck out of every other record, and the count is lower
by the number of edges that have the node as an end. Every other key and every other neighbor is written as before, and
nothing lists the node any more. If it is put in again later, while it is not there, it has no edges. -/
theorem erasure_purges (h : g.Reachable) (x : ν) :
    let g' := (g.change (.eraseNode x)).state
    g' = g.purged x ∧ g'.edgeCount + g.edges.items.countP (·.contains x) = g.edgeCount ∧
    (∀ y, g'.key? y = if x == y then none else g.key? y) ∧
    (∀ way y z, g'.noted? way y z = if x == y || x == z then none else g.noted? way y z) ∧
    (∀ e ∈ g'.records.entries, (x == e.1) = false ∧
      e.2.predecessors.contains x = false ∧ e.2.successors.contains x = false) ∧
    ∀ cs, (g'.run cs).1.hasNode x = false → ((g'.run cs).1.change (.insertNode x)).state.Isolated x := by
  intro g'
  have hg : g.Sound := h.sound
  have hpurged : g' = g.purged x := hg.withoutNode_eq_purged x
  refine ⟨hpurged, ?_, g.key?_withoutNode x, noted?_withoutNode hg.returned x, ?_, fun cs hx => ?_⟩
  · rw [hpurged]
    exact hg.edgeCount_purged_add x
  · rw [hpurged]
    exact g.not_listed_purged x
  · exact ((h.change (.eraseNode x)).run cs).1.sound.isolated_withNode hx

/-- A node with edges both ways to another and a self-loop, erased in a form that is not its own and put in again. -/
theorem erasure_purges_mutual :
    let x : Node Atom := .pair (.unordered (.atom (.integer 1)) (.atom (.integer 2)))
    let x' : Node Atom := .pair (.unordered (.atom (.integer 2)) (.atom (.integer 1)))
    let y : Node Atom := .atom (.integer 3)
    let g : Graph (Node Atom) .directed := ((empty .directed true).run [.insertEdge .checked x x,
      .insertEdge .checked y x', .insertEdge .checked x y, .insertEdge .checked y y]).1
    let g' := (g.change (.eraseNode x')).state
    g' = g.purged x' ∧ g.edgeCount = 4 ∧ g'.edgeCount = 1 ∧ g'.key? x = none ∧ g'.noted? .outward y x = none ∧
      ((g'.run [.eraseEdge y y]).1.change (.insertNode x')).state.Isolated x' := by
  intro x x' y g g'
  have hg : g.Reachable := ((Reachable.empty true).run _).1
  obtain ⟨hpurged, -, hkey, hnoted, -, hlater⟩ := erasure_purges hg x'
  refine ⟨hpurged, by decide +kernel, by decide +kernel, ?_, ?_, hlater _ (by decide +kernel)⟩
  · exact hkey x
  · exact hnoted .outward y x

end Graph

end GraphViews
