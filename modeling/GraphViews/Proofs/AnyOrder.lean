import GraphViews.Node.Atom
import GraphViews.Proofs.Agreement
import GraphViews.Proofs.Updates
/-!
# The order of independent changes

Insertions may come in any order: the graph is equal in the end, and as many edges were new on the way. Removals may
come in any order as well, and there the graph is the same to the letter, since a removal writes nothing. It only
leaves out records, and neighbors in the records that stay; `Sound.find?_updateAll` says which, for a whole list of
removals at once.
-/

namespace GraphViews

/-! ## Tables and records -/

/-- A look-up with the key of an entry finds the value of that entry. -/
theorem Table.find?_of_mem {κ α : Type} [BEq κ] [EquivBEq κ] {t : Table κ α} {e : κ × α} (h : e ∈ t.entries) :
    t.find? e.1 = some e.2 :=
  (t.find?_eq_some_iff e.1 e.2).2 ⟨e.1, h, BEq.rfl⟩

/-- A table is told by its keys, as they are written, and by what look-ups give. -/
theorem Table.eq_of_find? {κ α : Type} [BEq κ] [EquivBEq κ] {t t' : Table κ α} (hkeys : t.keys = t'.keys)
    (hfind : ∀ k, t.find? k = t'.find? k) : t = t' := by
  have hentries : ∀ s : Table κ α, s.entries = s.keys.filterMap fun k => (s.find? k).map (k, ·) := by
    intro s
    have hmem : s.entries.filterMap (fun e => (s.find? e.1).map (e.1, ·)) = s.entries.filterMap some := by
      refine List.filterMap_congr fun e he => ?_
      rw [find?_of_mem he]
      rfl
    rw [keys, List.filterMap_map]
    exact (hmem.trans List.filterMap_some).symm
  have h : t.entries = t'.entries := by
    rw [hentries t, hentries t', hkeys]
    simp only [hfind]
  cases t
  cases t'
  cases h
  rfl

namespace ItemSet

variable {α : Type} [BEq α]

/-- The items with a property. -/
def filter (s : ItemSet α) (p : α → Bool) : ItemSet α := ⟨s.items.filter p, s.distinct.filter p⟩

theorem filter_filter (s : ItemSet α) (p q : α → Bool) : (s.filter p).filter q = s.filter fun x => p x && q x := by
  have h : (s.items.filter p).filter q = s.items.filter fun x => p x && q x := by
    rw [List.filter_filter]
    exact List.filter_congr fun x _ => Bool.and_comm _ _
  simp only [filter, h]

theorem filter_true (s : ItemSet α) : (s.filter fun _ => true) = s := by
  simp only [filter, List.filter_true]

theorem erase_eq_filter (s : ItemSet α) (x : α) : s.erase x = s.filter fun y => !(x == y) := rfl

end ItemSet

namespace Neighborhood

variable {ν : Type} [BEq ν] {d : EdgeKind}

/-- The record of `x` without the edges that are not kept. -/
def keeping (c : Neighborhood ν d) (x : ν) (keeps : ν → ν → Bool) : Neighborhood ν d :=
  match c with
  | shared neighbors => shared (neighbors.filter (keeps x ·))
  | split predecessors successors => split (predecessors.filter (keeps · x)) (successors.filter (keeps x ·))

theorem keeping_keeping (c : Neighborhood ν d) (x : ν) (keeps keeps' : ν → ν → Bool) :
    (c.keeping x keeps).keeping x keeps' = c.keeping x fun a b => keeps a b && keeps' a b := by
  cases c <;> simp only [keeping, ItemSet.filter_filter]

theorem keeping_all (c : Neighborhood ν d) (x : ν) : (c.keeping x fun _ _ => true) = c := by
  cases c <;> simp only [keeping, ItemSet.filter_true]

/-- The record of `x` after another node is struck out. -/
theorem without_eq_keeping (c : Neighborhood ν d) {z x : ν} (h : (z == x) = false) :
    c.without z = c.keeping x fun a b => !(z == a || z == b) := by
  cases c <;> simp only [without, keeping, ItemSet.erase_eq_filter, h, Bool.false_or, Bool.or_false]

/-- The record of `x` after the edge from `u` to `v` is struck out where it is noted: as an edge out of `u` and as an
edge into `v`. -/
theorem strike_eq_keeping (c : Neighborhood ν d) (u v x : ν) :
    (let c' := if u == x then c.eraseSuccessor v else c
      if v == x then c'.erasePredecessor u else c') = c.keeping x fun a b => !(d.edge u v == d.edge a b) := by
  cases c with
  | shared neighbors =>
    by_cases hu : u == x <;> by_cases hv : v == x <;>
      simp [hu, hv, keeping, eraseSuccessor, erasePredecessor, EdgeKind.edge, Ends.unordered_beq,
        ItemSet.erase_eq_filter, ItemSet.filter_filter, ItemSet.filter_true]
  | split predecessors successors =>
    by_cases hu : u == x <;> by_cases hv : v == x <;>
      simp [hu, hv, keeping, eraseSuccessor, erasePredecessor, EdgeKind.edge, Ends.ordered_beq,
        ItemSet.erase_eq_filter, ItemSet.filter_true]

end Neighborhood

/-! ## What a removal leaves -/

namespace Update

variable {ν : Type} [BEq ν]

/-- Whether the update leaves a node that equals `x`. -/
def sparesNode : Update ν → ν → Bool
  | dropNode z, x => !(z == x)
  | _, _ => true

/-- Whether the update leaves an edge from `a` to `b`. -/
def sparesEdge (d : EdgeKind) : Update ν → ν → ν → Bool
  | dropNode z, a, b => !(z == a || z == b)
  | dropEdge u v, a, b => !(d.edge u v == d.edge a b)
  | _, _, _ => true

end Update

namespace Graph

variable {ν : Type} [BEq ν] {d : EdgeKind}

theorem eq_of_fields {a b : Graph ν d} (hp : a.selfLoops = b.selfLoops) (hr : a.records = b.records)
    (hc : a.edgeCount = b.edgeCount) : a = b := by
  cases a
  cases b
  cases hp
  cases hr
  cases hc
  rfl

theorem keys_update (g : Graph ν d) {u : Update ν} (h : u.inserts = false) :
    (g.update u).records.keys = g.records.keys.filter u.sparesNode := by
  cases u with
  | addNode x | addEdge a b => cases h
  | dropNode x => exact g.keys_withoutNode x
  | dropEdge a b => exact (g.keys_withoutEdge a b).trans (List.filter_true _).symm

/-- After removals there are the keys that all of them spare, in the order and the forms of before. -/
theorem keys_updateAll (g : Graph ν d) {us : List (Update ν)} (h : ∀ u ∈ us, u.inserts = false) :
    (g.updateAll us).records.keys = g.records.keys.filter fun k => us.all (·.sparesNode k) := by
  induction us generalizing g with
  | nil => exact (List.filter_true _).symm
  | cons u us ih =>
    obtain ⟨hu, hus⟩ := List.forall_mem_cons.1 h
    have hcons : g.updateAll (u :: us) = (g.update u).updateAll us := rfl
    rw [hcons, ih _ hus, keys_update g hu, List.filter_filter]
    exact List.filter_congr fun k _ => Bool.and_comm _ _

variable [EquivBEq ν] {g : Graph ν d}

theorem find?_withoutEdge (g : Graph ν d) (u v k : ν) : (g.withoutEdge u v).records.find? k =
    (g.records.find? k).map (·.keeping k fun a b => !(d.edge u v == d.edge a b)) := by
  simp only [withoutEdge, Table.find?_modify]
  cases g.records.find? k with
  | none => simp
  | some c =>
    simp only [Option.map_some, ← c.strike_eq_keeping u v k]
    by_cases hu : u == k <;> by_cases hv : v == k <;> simp [hu, hv]

namespace Sound

theorem update (hg : g.Sound) {u : Update ν} (h : u.inserts = false) : (g.update u).Sound := by
  cases u with
  | addNode x | addEdge a b => cases h
  | dropNode x => exact hg.withoutNode x
  | dropEdge a b => exact hg.withoutEdge a b

theorem find?_update (hg : g.Sound) {u : Update ν} (h : u.inserts = false) (k : ν) : (g.update u).records.find? k =
    if u.sparesNode k then (g.records.find? k).map (·.keeping k (u.sparesEdge d)) else none := by
  cases u with
  | addNode x | addEdge a b => cases h
  | dropEdge a b => exact g.find?_withoutEdge a b k
  | dropNode x =>
    have hfind : (g.withoutNode x).records.find? k =
        if x == k then none else (g.records.find? k).map (·.without x) := find?_withoutNode hg.returned x k
    rw [Graph.update, hfind, Update.sparesNode]
    cases hk : x == k with
    | true => rfl
    | false =>
      have hrecord : ∀ c : Neighborhood ν d, c.without x = c.keeping k ((Update.dropNode x).sparesEdge d) :=
        fun c => c.without_eq_keeping hk
      simp only [hrecord]
      rfl

/-- After removals a record holds the neighbors of before at the other ends of the edges that all of them spare. -/
theorem find?_updateAll (hg : g.Sound) {us : List (Update ν)} (h : ∀ u ∈ us, u.inserts = false) (k : ν) :
    (g.updateAll us).records.find? k = if us.all (·.sparesNode k) then
      (g.records.find? k).map (·.keeping k fun a b => us.all (·.sparesEdge d a b)) else none := by
  induction us generalizing g with
  | nil =>
    simp only [List.all_nil, if_true, Neighborhood.keeping_all, Option.map_id']
    rfl
  | cons u us ih =>
    obtain ⟨hu, hus⟩ := List.forall_mem_cons.1 h
    have hcons : g.updateAll (u :: us) = (g.update u).updateAll us := rfl
    rw [hcons, ih (hg.update hu) hus, hg.find?_update hu]
    simp only [List.all_cons]
    by_cases hk : u.sparesNode k
    · by_cases hks : us.all (·.sparesNode k)
      · simp [hk, hks, Option.map_map, Function.comp_def, Neighborhood.keeping_keeping]
      · simp [hk, hks]
    · simp [hk]

/-- The records of a sound graph tell its count. -/
theorem eq_of_records {a b : Graph ν d} (ha : a.Sound) (hb : b.Sound) (hp : a.selfLoops = b.selfLoops)
    (h : a.records = b.records) : a = b := by
  have hcount : a.edgeCount = b.edgeCount := by
    refine ha.counted.unique (hb.counted.congr fun p => ?_)
    rw [hasPair, hasPair, hasEdge, hasEdge, h]
  exact eq_of_fields hp h hcount

end Sound

/-! ## Any order -/

/-- Insertions in another order bring the same nodes and edges. -/
theorem run_insertions_perm (g : Graph ν d) {cs cs' : List (Change ν)} (hp : cs.Perm cs')
    (h : ∀ c ∈ cs, c.inserts) : (∀ x, (g.run cs).1.hasNode x = (g.run cs').1.hasNode x) ∧
      ∀ a b, (g.run cs).1.hasEdge a b = (g.run cs').1.hasEdge a b := by
  have hus := hp.filterMap (·.update? d g.selfLoops)
  have hins : ∀ u ∈ cs.filterMap (·.update? d g.selfLoops), u.inserts := by
    intro u hu
    obtain ⟨c, hc, hcu⟩ := List.mem_filterMap.1 hu
    rw [Change.inserts_of_update? hcu, h c hc]
  have hins' : ∀ u ∈ cs'.filterMap (·.update? d g.selfLoops), u.inserts := fun u hu => hins u (hus.mem_iff.2 hu)
  rw [fst_run_eq, fst_run_eq]
  constructor
  · intro x
    rw [hasNode_updateAll g hins, hasNode_updateAll g hins', hus.any_eq]
  · intro a b
    rw [hasEdge_updateAll g hins, hasEdge_updateAll g hins', hus.any_eq]

/-- Removals in another order leave the same records, to the letter. -/
theorem Sound.run_removals_perm (hg : g.Sound) {cs cs' : List (Change ν)} (hp : cs.Perm cs')
    (h : ∀ c ∈ cs, c.inserts = false) : (g.run cs).1.records = (g.run cs').1.records := by
  have hus := hp.filterMap (·.update? d g.selfLoops)
  have hrem : ∀ u ∈ cs.filterMap (·.update? d g.selfLoops), u.inserts = false := by
    intro u hu
    obtain ⟨c, hc, hcu⟩ := List.mem_filterMap.1 hu
    rw [Change.inserts_of_update? hcu, h c hc]
  have hrem' : ∀ u ∈ cs'.filterMap (·.update? d g.selfLoops), u.inserts = false := fun u hu => hrem u (hus.mem_iff.2 hu)
  rw [fst_run_eq, fst_run_eq]
  apply Table.eq_of_find?
  · rw [keys_updateAll g hrem, keys_updateAll g hrem']
    simp only [hus.all_eq]
  · intro k
    rw [hg.find?_updateAll hrem, hg.find?_updateAll hrem']
    simp only [hus.all_eq]

/-- Make the same insertions in two orders: the graphs are equal in the end, they have as many edges, and as many
insertions of edges were told that theirs was new. Make the same removals in two orders: it comes to the same graph,
with the same records, written the same everywhere, and the same count. -/
theorem order_immaterial (hg : g.Reachable) {cs cs' : List (Change ν)} (hp : cs.Perm cs') :
    ((∀ c ∈ cs, c.inserts) → (g.run cs).1.survey.equal (g.run cs').1.survey ∧
      (g.run cs).1.edges.size = (g.run cs').1.edges.size ∧ g.newEdges cs = g.newEdges cs') ∧
    ((∀ c ∈ cs, c.inserts = false) → (g.run cs).1 = (g.run cs').1) := by
  have hs : (g.run cs).1.Sound := (hg.run cs).1.sound
  have hs' : (g.run cs').1.Sound := (hg.run cs').1.sound
  constructor
  · intro h
    obtain ⟨hnode, hedge⟩ := g.run_insertions_perm hp h
    have hcount : (g.run cs).1.edgeCount = (g.run cs').1.edgeCount := by
      refine hs.counted.unique (hs'.counted.congr fun p => ?_)
      rw [hasPair, hasPair, hedge]
    have hnew := g.edgeCount_run h
    have hnew' := g.edgeCount_run fun c hc => h c (hp.mem_iff.2 hc)
    exact ⟨(hs.equal_iff hs').2 ⟨hnode, hedge⟩, hcount, by omega⟩
  · intro h
    exact hs.eq_of_records hs' (by rw [selfLoops_run, selfLoops_run]) (hg.sound.run_removals_perm hp h)

/-- An edge that is put in twice and a self-loop, in two orders; then, in two orders, an edge that is erased by itself
and with either of its ends, a node that is not there and a pair of the wrong kind. -/
theorem order_immaterial_reversed :
    let x : Node Atom := .pair (.unordered (.atom (.integer 1)) (.atom (.integer 2)))
    let x' : Node Atom := .pair (.unordered (.atom (.integer 2)) (.atom (.integer 1)))
    let y : Node Atom := .atom (.integer 3)
    let z : Node Atom := .atom (.integer 4)
    let e : Graph (Node Atom) .undirected := empty .undirected true
    let cs := [.insertEdge .checked x y, .insertNode x', .insertEdge .checked y x', .insertEdge .checked x' x,
      .insertEdge .checked y z]
    let g := (e.run cs).1
    let rs := [.eraseEdge x y, .eraseNode x', .eraseNode (.atom (.integer 7)), .erasePair .checked (.ordered y z)]
    ((∀ c ∈ cs, c.inserts) ∧ e.newEdges cs = 3 ∧ e.newEdges cs.reverse = 3 ∧
      g.survey.equal (e.run cs.reverse).1.survey) ∧
    (∀ c ∈ rs, c.inserts = false) ∧ (g.run rs).1 = (g.run rs.reverse).1 ∧ (g.run rs).1.edges.size = 1 := by
  intro x x' y z e cs g rs
  have he : e.Reachable := .empty true
  have hins : ∀ c ∈ cs, c.inserts := by decide
  have hrem : ∀ c ∈ rs, c.inserts = false := by decide
  obtain ⟨hequal, -, hnew⟩ := (order_immaterial he (List.reverse_perm cs).symm).1 hins
  have hsame := (order_immaterial (he.run cs).1 (List.reverse_perm rs).symm).2 hrem
  have hcount : e.newEdges cs = 3 := by decide +kernel
  exact ⟨⟨hins, hcount, by rw [← hnew, hcount], hequal⟩, hrem, hsame, by decide +kernel⟩

end Graph

end GraphViews
