import GraphViews.Node.Atom
import GraphViews.Proofs.Scan
import GraphViews.Settings
import GraphViews.Store
/-!
# The graphs that come about

A graph is built empty and then changed. Between two changes its records, and the items of the sets in them,
may come up in any other order, since no order is promised. The changes made since the graph was empty are its history
(`Traced`); whatever is said of reachable graphs, or of what they noted on the way, is read off a history. In a store,
graphs are copied too, and a copy goes its own way. `Grown.reachable` says that all this leads to nothing but reachable
graphs, and `Reachable.sound` that these are sound.
-/

namespace GraphViews

variable {ν : Type} [BEq ν] {d : EdgeKind}

/-! ## Another order -/

/-- The same record, the items of its sets in any order. -/
structure Neighborhood.Rearranged (c c' : Neighborhood ν d) : Prop where
  predecessors : c.predecessors.items.Perm c'.predecessors.items
  successors : c.successors.items.Perm c'.successors.items

namespace Graph

/-- The same graph, written the same everywhere, with its records and the items of its sets in any order. -/
structure Rearranged (g g' : Graph ν d) : Prop where
  selfLoops : g'.selfLoops = g.selfLoops
  edgeCount : g'.edgeCount = g.edgeCount
  keys : g.records.keys.Perm g'.records.keys
  records : ∀ k, Option.Rel Neighborhood.Rearranged (g.records.find? k) (g'.records.find? k)

namespace Rearranged

variable {g g' : Graph ν d}

theorem hasNode_eq (h : g.Rearranged g') (x : ν) : g'.hasNode x = g.hasNode x := by
  have hx := h.records x
  rw [hasNode_eq_isSome, hasNode_eq_isSome]
  revert hx
  generalize g.records.find? x = o, g'.records.find? x = o'
  rintro (_ | _) <;> rfl

theorem hasEdge_eq (h : g.Rearranged g') (u v : ν) : g'.hasEdge u v = g.hasEdge u v := by
  have hu := h.records u
  unfold hasEdge
  revert hu
  generalize g.records.find? u = o, g'.records.find? u = o'
  rintro (hc | _)
  · exact hc.successors.symm.contains_eq
  · rfl

theorem hasBackEdge_eq (h : g.Rearranged g') (u v : ν) : g'.hasBackEdge u v = g.hasBackEdge u v := by
  have hv := h.records v
  unfold hasBackEdge
  revert hv
  generalize g.records.find? v = o, g'.records.find? v = o'
  rintro (hc | _)
  · exact hc.predecessors.symm.contains_eq
  · rfl

/-- Moving whole records about rearranges a graph. -/
theorem of_perm [PartialEquivBEq ν] {t : Table ν (Neighborhood ν d)} (h : g.records.entries.Perm t.entries) :
    g.Rearranged { g with records := t } where
  selfLoops := rfl
  edgeCount := rfl
  keys := h.map _
  records k := by
    have hfind : t.find? k = g.records.find? k := by
      apply Option.ext
      intro c
      rw [Table.find?_eq_some_iff, Table.find?_eq_some_iff]
      simp only [h.mem_iff]
    rw [hfind]
    cases g.records.find? k with
    | none => exact .none
    | some c => exact .some ⟨.refl _, .refl _⟩

end Rearranged

theorem Sound.rearranged {g g' : Graph ν d} (hg : g.Sound) (h : g.Rearranged g') : g'.Sound where
  returned u v := by rw [h.hasBackEdge_eq, h.hasEdge_eq, hg.returned]
  loopless hp u := by rw [h.hasEdge_eq, hg.loopless (by rw [← h.selfLoops, hp])]
  counted := by
    rw [h.edgeCount]
    exact hg.counted.congr fun p => by simp only [hasPair, h.hasEdge_eq]

end Graph

/-! ## Histories -/

/-- A change that was made, and the graph before it. -/
structure Past (ν : Type) [BEq ν] (d : EdgeKind) where
  before : Graph ν d
  change : Change ν

/-- What came of the change. -/
def Past.effect (p : Past ν d) : Effect ν (Graph ν d) := p.before.change p.change

namespace Graph

/-- The graph came about by the changes of the list, the last one first, from an empty graph. Its records may have
come up in any other order after each. -/
inductive Traced : List (Past ν d) → Graph ν d → Prop
  | empty (selfLoops : Bool) : Traced [] (.empty d selfLoops)
  | change {past : List (Past ν d)} {g : Graph ν d} (h : Traced past g) (c : Change ν) :
    Traced (⟨g, c⟩ :: past) (g.change c).state
  | rearranged {past : List (Past ν d)} {g g' : Graph ν d} (h : Traced past g) (hr : g.Rearranged g') : Traced past g'

theorem Traced.sound [EquivBEq ν] {past : List (Past ν d)} {g : Graph ν d} (h : Traced past g) : g.Sound := by
  induction h with
  | empty selfLoops => exact sound_empty d selfLoops
  | change _ c ih => exact ih.change c
  | rearranged _ hr ih => exact ih.rearranged hr

/-! ## Reachable graphs -/

/-- The graphs that changes lead to from an empty one, their order being anyone's guess after each. -/
def Reachable (g : Graph ν d) : Prop := ∃ past, Traced past g

namespace Reachable

variable {g g' : Graph ν d}

theorem empty (selfLoops : Bool) : (Graph.empty d selfLoops : Graph ν d).Reachable := ⟨[], .empty selfLoops⟩

theorem change (h : g.Reachable) (c : Change ν) : (g.change c).state.Reachable := by
  obtain ⟨past, h⟩ := h
  exact ⟨⟨g, c⟩ :: past, h.change c⟩

theorem rearranged (h : g.Reachable) (hr : g.Rearranged g') : g'.Reachable := by
  obtain ⟨past, h⟩ := h
  exact ⟨past, h.rearranged hr⟩

theorem sound [EquivBEq ν] (h : g.Reachable) : g.Sound := by
  obtain ⟨past, h⟩ := h
  exact h.sound

end Reachable

theorem fst_run_append (g : Graph ν d) (xs ys : List (Change ν)) :
    (g.run (xs ++ ys)).1 = ((g.run xs).1.run ys).1 := by
  induction xs generalizing g with
  | nil => rfl
  | cons c xs ih => exact ih (g.change c).state

theorem snd_run_append (g : Graph ν d) (xs ys : List (Change ν)) :
    (g.run (xs ++ ys)).2 = (g.run xs).2 ++ ((g.run xs).1.run ys).2 := by
  induction xs generalizing g with
  | nil => rfl
  | cons c xs ih => exact congrArg (g.change c :: ·) (ih (g.change c).state)

/-- A run leads from reachable graphs to reachable graphs, before and after every step. -/
theorem Reachable.run {g : Graph ν d} (h : g.Reachable) (cs : List (Change ν)) :
    (g.run cs).1.Reachable ∧ ∀ e ∈ (g.run cs).2, e.state.Reachable := by
  induction cs generalizing g with
  | nil => exact ⟨h, by simp [Graph.run]⟩
  | cons c cs ih =>
    obtain ⟨hlast, hall⟩ := ih (h.change c)
    refine ⟨hlast, fun e he => ?_⟩
    rcases List.mem_cons.1 he with rfl | he
    · exact h.change c
    · exact hall e he

end Graph

/-! ## Stores -/

namespace Store

/-- The stores whose graphs were built, copied and changed one by one, in any interleaving. -/
inductive Grown : Store ν → Prop
  | empty : Grown {}
  | build {s : Store ν} (h : Grown s) (d : EdgeKind) (settings : Settings d) :
    Grown (s.addGraph ⟨d, settings.build⟩)
  | copy {s : Store ν} (h : Grown s) {g : AnyGraph ν} (hg : g ∈ s.graphs) : Grown (s.addGraph g)
  | addSet {s : Store ν} (h : Grown s) {kind : ItemKind} (set : ItemSet (kind.Item ν)) : Grown (s.addSet set)
  | change {s : Store ν} (h : Grown s) (m : Mutation ν) : Grown (s.change m)
  | rearranged {s : Store ν} (h : Grown s) {id : Nat} {d : EdgeKind} {g g' : Graph ν d}
    (hg : s.graphs[id]? = some ⟨d, g⟩) (hr : g.Rearranged g') : Grown (s.setGraph id ⟨d, g'⟩)

theorem Grown.reachable {s : Store ν} (h : s.Grown) {g : AnyGraph ν} (hg : g ∈ s.graphs) : g.graph.Reachable := by
  -- For all graphs of the store at once: a copy is reachable because the graph it was made from is.
  induction h generalizing g with
  | empty => cases hg
  | build _ d settings ih =>
    rcases List.mem_append.1 hg with hg | hg
    · exact ih hg
    · rw [List.mem_singleton.1 hg]
      exact .empty settings.selfLoops
  | copy _ hsource ih =>
    rcases List.mem_append.1 hg with hg | hg
    · exact ih hg
    · rw [List.mem_singleton.1 hg]
      exact ih hsource
  | @addSet s _ kind set ih =>
    refine ih ?_
    cases kind <;> exact hg
  | @change s _ m ih =>
    cases m with
    | graph id c =>
      simp only [Store.change] at hg
      split at hg
      · exact ih hg
      · rcases List.mem_or_eq_of_mem_set hg with hg | rfl
        · exact ih hg
        · exact (ih (List.mem_of_getElem? ‹_›)).change c
    | set kind id c =>
      simp only [Store.change] at hg
      split at hg
      · exact ih hg
      · rw [graphs_setSet] at hg
        exact ih hg
  | rearranged _ hsource hr ih =>
    rcases List.mem_or_eq_of_mem_set hg with hg | rfl
    · exact ih hg
    · exact (ih (List.mem_of_getElem? hsource)).rearranged hr

/-- However the graphs of a store came about, the records of each agree: whatever a record lists is a node, every
edge is noted at both of its ends, no self-loop is there against the policy, and the count is the number of
distinct edges that the records list. So the check finds no fault. -/
theorem records_agree [EquivBEq ν] {s : Store ν} (h : s.Grown) {g : AnyGraph ν} (hg : g ∈ s.graphs) :
    (∀ e ∈ g.graph.records.entries, (∀ y ∈ e.2.successors.items, g.graph.hasNode y) ∧
      ∀ y ∈ e.2.predecessors.items, g.graph.hasNode y) ∧
    (∀ u v, g.graph.hasEdge u v = g.graph.hasBackEdge u v) ∧
    (g.graph.selfLoops = false → ∀ e ∈ g.graph.records.entries, e.2.successors.contains e.1 = false) ∧
    HasCount g.graph.listedEdges.contains g.graph.edgeCount ∧
    g.graph.check = .ok () := by
  have hs := (h.reachable hg).sound
  refine ⟨fun e he => ⟨fun y hy => ?_, fun y hy => ?_⟩, fun u v => (hs.returned u v).symm, fun hp e he => ?_, ?_,
    (Graph.check_eq_ok_iff _).2 hs⟩
  · have hedge := (g.graph.hasEdge_iff_entry e.1 y).2 ⟨e, he, BEq.rfl, e.2.successors.contains_of_mem hy⟩
    exact (hs.hasNode_of_hasEdge hedge).2
  · have hback := (g.graph.hasBackEdge_iff_entry y e.1).2 ⟨e, he, BEq.rfl, e.2.predecessors.contains_of_mem hy⟩
    rw [hs.returned] at hback
    exact (hs.hasNode_of_hasEdge hback).1
  · rw [Bool.eq_false_iff]
    intro hc
    have hedge := (g.graph.hasEdge_iff_entry e.1 e.1).2 ⟨e, he, BEq.rfl, hc⟩
    rw [hs.loopless hp] at hedge
    cases hedge
  · exact hs.counted.congr fun p => Graph.elem_listedEdges_of_returned hs.returned p

/-- A self-loop whose two ends are written differently, put into a copy of a graph. -/
theorem records_agree_copy :
    let x : Node Atom := .pair (.unordered (.atom (.integer 1)) (.atom (.integer 2)))
    let x' : Node Atom := .pair (.unordered (.atom (.integer 2)) (.atom (.integer 1)))
    let g : AnyGraph (Node Atom) := ⟨.undirected, ({ selfLoops := true } : Settings .undirected).build⟩
    let s := ((({} : Store (Node Atom)).addGraph g).addGraph g).change (.graph 1 (.insertEdge .checked x x'))
    s.Grown ∧ ∃ h ∈ s.graphs, h.graph.edgeCount = 1 ∧ (∀ u v, h.graph.hasEdge u v = h.graph.hasBackEdge u v) ∧
      h.graph.check = .ok () := by
  intro x x' g s
  have hs : s.Grown := ((Grown.empty.build .undirected { selfLoops := true }).copy (List.mem_cons_self)).change _
  have hg : (g.change (.insertEdge .checked x x')).state ∈ s.graphs := List.mem_of_getElem? (i := 1) rfl
  obtain ⟨-, hreturned, -, -, hcheck⟩ := records_agree hs hg
  exact ⟨hs, _, hg, rfl, hreturned, hcheck⟩

end Store

end GraphViews
