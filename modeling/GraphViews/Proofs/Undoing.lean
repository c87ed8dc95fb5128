import GraphViews.Node.Atom
import GraphViews.Proofs.AnyOrder
/-!
# Taking back what was put in

A change that reports that nothing changed leaves the graph as it is, to the letter. An insertion that did change
something is taken back by removals that take out what it brought and nothing else: no form is lost on the way, since
an insertion writes nothing over and a removal writes nothing at all. `Sound.updateAll_restores` says so of any such
removals, whether they are of the edge or of the ends that came in with it.
-/

namespace GraphViews

/-! ## Tables, sets and records -/

namespace Table

variable {κ α : Type} [BEq κ] {t t' : Table κ α} {k : κ}

/-- A key that comes in for want of an equal one is of no use to a filter that passes only keys of before. -/
theorem filter_keys_of_new (h : t'.keys = if t.contains k then t.keys else k :: t.keys) {p : κ → Bool}
    (hp : p k → t.contains k) : t'.keys.filter p = t.keys.filter p := by
  rw [h]
  split
  · rfl
  · rw [List.filter_cons_of_neg (mt hp ‹_›)]

variable [EquivBEq κ]

theorem contains_of_mem_keys (h : k ∈ t.keys) : t.contains k := by
  rw [contains_eq_elem_keys]
  exact elem_of_mem h

theorem contains_upsert (t : Table κ α) (k k' : κ) (a : α) (f : α → α) :
    (t.upsert k a f).contains k' = (k == k' || t.contains k') := by
  rw [contains_eq_isSome, contains_eq_isSome, find?_upsert]
  by_cases hk : k == k' <;> simp [hk]

theorem find?_insertNew_of_some {k k' : κ} {a c : α} (h : t.find? k' = some c) :
    (t.insertNew k a).find? k' = some c := by
  rw [find?_insertNew]
  split
  · rw [t.find?_congr ‹_›, h]
    rfl
  · exact h

theorem find?_upsert_of_some {k k' : κ} {a c : α} {f : α → α} (h : t.find? k' = some c) :
    (t.upsert k a f).find? k' = some (if k == k' then f c else c) := by
  rw [find?_upsert]
  split
  · rw [t.find?_congr ‹_›, h]
    rfl
  · exact h

theorem upsert_eq_self {a c : α} {f : α → α} (h : t.find? k = some c) (hf : f c = c) : t.upsert k a f = t := by
  have hk : t.contains k := by
    rw [contains_eq_isSome, h]
    rfl
  rw [upsert, if_pos hk]
  refine eq_of_find? (t.keys_modify k f) fun k' => ?_
  rw [find?_modify]
  split
  · rw [← t.find?_congr ‹_›, h, Option.map_some, hf]
  · rfl

end Table

namespace ItemSet

variable {α : Type} [BEq α]

theorem filter_eq_self {s : ItemSet α} {p : α → Bool} (h : ∀ x ∈ s.items, p x) : s.filter p = s := by
  simp only [filter, List.filter_eq_self.2 h]

/-- An item that the filter drops may as well not have been put in. -/
theorem filter_insert {p : α → Bool} {x : α} (hx : p x = false) (s : ItemSet α) :
    (s.insert x).filter p = s.filter p := by
  have hitems : (s.insert x).items.filter p = s.items.filter p := by
    rw [items_insert]
    split
    · rfl
    · rw [List.filter_cons_of_neg (by simp [hx])]
  simp only [filter, hitems]

end ItemSet

namespace Neighborhood

variable {ν : Type} [BEq ν] {d : EdgeKind} {keeps : ν → ν → Bool}

theorem insertSuccessor_of_contains {c : Neighborhood ν d} {x : ν} (h : c.successors.contains x) :
    c.insertSuccessor x = c := by
  cases c with
  | shared neighbors => exact congrArg shared (ItemSet.insert_of_contains h)
  | split predecessors successors => exact congrArg (split predecessors ·) (ItemSet.insert_of_contains h)

theorem insertPredecessor_of_contains {c : Neighborhood ν d} {x : ν} (h : c.predecessors.contains x) :
    c.insertPredecessor x = c := by
  cases c with
  | shared neighbors => exact congrArg shared (ItemSet.insert_of_contains h)
  | split predecessors successors => exact congrArg (split · successors) (ItemSet.insert_of_contains h)

/-- A record of which every edge is kept stays as it is. -/
theorem keeping_eq_self {c : Neighborhood ν d} {x : ν} (hp : ∀ y ∈ c.predecessors.items, keeps y x)
    (hs : ∀ y ∈ c.successors.items, keeps x y) : c.keeping x keeps = c := by
  cases c with
  | shared neighbors => exact congrArg shared (ItemSet.filter_eq_self hs)
  | split predecessors successors => exact congrArg₂ split (ItemSet.filter_eq_self hp) (ItemSet.filter_eq_self hs)

theorem keeping_insertSuccessor {x y : ν} (h : keeps x y = false) (c : Neighborhood ν d) :
    (c.insertSuccessor y).keeping x keeps = c.keeping x keeps := by
  cases c <;> simp only [insertSuccessor, keeping, ItemSet.filter_insert h]

theorem keeping_insertPredecessor {x y : ν} (h : keeps y x = false) (hs : d.isDirected = false → keeps x y = false)
    (c : Neighborhood ν d) : (c.insertPredecessor y).keeping x keeps = c.keeping x keeps := by
  cases c with
  | shared neighbors => exact congrArg shared (ItemSet.filter_insert (hs rfl) neighbors)
  | split predecessors successors =>
    exact congrArg (split · _) (ItemSet.filter_insert (p := (keeps · x)) h predecessors)

end Neighborhood

/-! ## What a list of removals spares -/

namespace Update

variable {ν : Type} [BEq ν] [EquivBEq ν]

theorem all_sparesNode_dropNode (xs : List ν) (x : ν) :
    (xs.map dropNode).all (·.sparesNode x) = !xs.contains x := by
  rw [List.all_map, List.contains_eq_any_beq, List.not_any_eq_all_not]
  simp only [Function.comp_def, sparesNode, BEq.comm (a := x)]

theorem all_sparesEdge_dropNode (d : EdgeKind) (xs : List ν) (a b : ν) :
    (xs.map dropNode).all (·.sparesEdge d a b) = !(xs.contains a || xs.contains b) := by
  induction xs with
  | nil => rfl
  | cons x xs ih =>
    rw [List.map_cons, List.all_cons, ih, List.contains_cons, List.contains_cons, sparesEdge, BEq.comm (a := x),
      BEq.comm (a := x)]
    cases a == x <;> cases xs.contains a <;> simp

end Update

namespace Graph

variable {ν : Type} [BEq ν] {d : EdgeKind} {g : Graph ν d}

/-! ## What a change reports -/

theorem selfLoops_update (g : Graph ν d) (u : Update ν) : (g.update u).selfLoops = g.selfLoops := by
  cases u with
  | addNode x | addEdge a b | dropEdge a b => rfl
  | dropNode x => exact g.selfLoops_withoutNode x

theorem selfLoops_updateAll (g : Graph ν d) (us : List (Update ν)) : (g.updateAll us).selfLoops = g.selfLoops := by
  induction us generalizing g with
  | nil => rfl
  | cons u us ih => exact (ih _).trans (g.selfLoops_update u)

theorem withNode_of_hasNode {x : ν} (h : g.hasNode x) : g.withNode x = g :=
  eq_of_fields rfl (Table.insertNew_of_contains _ h) rfl

theorem withoutNode_of_absent {x : ν} (h : g.hasNode x = false) : g.withoutNode x = g := by
  rw [withoutNode, find?_eq_none h]

/-- An insertion of an edge that reports a change is not refused, and the edge is new. -/
theorem insertEdge_of_new {s : Strictness} {u v : ν} (h : (g.insertEdge s u v).answer = .ok true) :
    (!g.selfLoops && u == v) = false ∧ g.hasEdge u v = false ∧ (g.insertEdge s u v).state = g.withEdge u v := by
  rw [insertEdge_eq] at h ⊢
  cases hp : !g.selfLoops && u == v with
  | true =>
    rw [hp] at h
    cases h
  | false =>
    rw [hp] at h
    exact ⟨rfl, by simpa using h, rfl⟩

variable [EquivBEq ν]

namespace Sound

/-- A record of a graph, after removals that spare all its edges. -/
theorem keeping_eq_self (hg : g.Sound) {k : ν} {c : Neighborhood ν d} (h : g.records.find? k = some c)
    {keeps : ν → ν → Bool} (hk : ∀ a b, g.hasEdge a b → keeps a b) : c.keeping k keeps = c := by
  refine Neighborhood.keeping_eq_self (fun y hy => hk y k ?_) fun y hy => hk k y ?_
  · rw [← hg.returned, hasBackEdge, h]
    exact c.predecessors.contains_of_mem hy
  · rw [hasEdge, h]
    exact c.successors.contains_of_mem hy

/-- An edge that is there already leaves nothing to note, at either end. -/
theorem withEdge_of_hasEdge (hg : g.Sound) {u v : ν} (h : g.hasEdge u v) : g.withEdge u v = g := by
  have hback : g.hasBackEdge u v := by rwa [hg.returned]
  obtain ⟨c, hc, hv⟩ := (Option.any_eq_true _ _).1 h
  obtain ⟨c', hc', hu⟩ := (Option.any_eq_true _ _).1 hback
  refine eq_of_fields rfl ?_ (if_pos h)
  rw [Graph.withEdge, Table.upsert_eq_self hc (Neighborhood.insertSuccessor_of_contains hv),
    Table.upsert_eq_self hc' (Neighborhood.insertPredecessor_of_contains hu)]

/-- Without the edge from `u` to `v` there is nothing to strike out, at either end. -/
theorem withoutEdge_of_not_hasEdge (hg : g.Sound) {u v : ν} (h : g.hasEdge u v = false) : g.withoutEdge u v = g := by
  refine eq_of_fields rfl (Table.eq_of_find? (g.keys_withoutEdge u v) fun k => ?_) ?_
  · rw [find?_withoutEdge]
    cases hk : g.records.find? k with
    | none => rfl
    | some c =>
      refine congrArg some (hg.keeping_eq_self hk fun a b hab => ?_)
      rw [Bool.not_eq_true', Bool.eq_false_iff]
      intro he
      rw [hg.hasEdge_congr he, hab] at h
      cases h
  · rw [Graph.withoutEdge, h]
    rfl

/-- A change that reports that nothing changed leaves the graph as it is. -/
theorem state_of_answer_false (hg : g.Sound) (c : Change ν) :
    (g.change c).answer = .ok false → (g.change c).state = g := by
  refine change_of (P := fun e => e.answer = .ok false → e.state = g) ?_ ?_ ?_ ?_ ?_ c
  · exact fun _ _ _ => rfl
  · intro x h
    exact withNode_of_hasNode (by simpa [insertNode] using h)
  · intro x h
    exact withoutNode_of_absent (by simpa [eraseNode] using h)
  · intro u v _ h
    exact hg.withEdge_of_hasEdge (by simpa using h)
  · intro u v h
    exact hg.withoutEdge_of_not_hasEdge (by simpa [eraseEdge] using h)

end Sound

/-! ## What an insertion brought, taken out again -/

theorem Sound.updateAll (hg : g.Sound) {us : List (Update ν)} (h : ∀ u ∈ us, u.inserts = false) :
    (g.updateAll us).Sound := by
  induction us generalizing g with
  | nil => exact hg
  | cons u us ih =>
    obtain ⟨hu, hus⟩ := List.forall_mem_cons.1 h
    exact ih (hg.update hu) hus

/-- A node of before has the record of before after an insertion, but for the edge that came in. -/
theorem find?_update_keeping {i : Update ν} (hi : i.inserts) {k : ν} {c : Neighborhood ν d}
    (hc : g.records.find? k = some c) {keeps : ν → ν → Bool} (hk : ∀ a b, i.bringsEdge d a b → keeps a b = false) :
    ((g.update i).records.find? k).map (·.keeping k keeps) = some (c.keeping k keeps) := by
  cases i with
  | dropNode x | dropEdge u v => cases hi
  | addNode x =>
    rw [update, withNode, Table.find?_insertNew_of_some hc]
    rfl
  | addEdge u v =>
    rw [update, withEdge, Table.find?_upsert_of_some (Table.find?_upsert_of_some hc), Option.map_some]
    have hsource : (if u == k then c.insertSuccessor v else c).keeping k keeps = c.keeping k keeps := by
      split
      · refine c.keeping_insertSuccessor (hk k v ?_)
        rwa [Update.bringsEdge, EdgeKind.edge_beq_edge_left]
      · rfl
    split
    · rw [Neighborhood.keeping_insertPredecessor, hsource]
      · refine hk u k ?_
        rwa [Update.bringsEdge, EdgeKind.edge_beq_edge_right]
      · intro hd
        refine hk k u ?_
        simp [Update.bringsEdge, EdgeKind.edge_beq_edge, *]
    · rw [hsource]

/-- Of the keys after an insertion, those of before are the ones that are nodes of before. -/
theorem filter_keys_update {i : Update ν} (hi : i.inserts) :
    (g.update i).records.keys.filter g.hasNode = g.records.keys := by
  have hall : g.records.keys.filter g.hasNode = g.records.keys :=
    List.filter_eq_self.2 fun _ => Table.contains_of_mem_keys
  cases i with
  | dropNode x | dropEdge u v => cases hi
  | addNode x => exact (Table.filter_keys_of_new (Table.keys_insertNew _ _ _) id).trans hall
  | addEdge u v =>
    have hsource := Table.filter_keys_of_new (p := g.hasNode)
      (g.records.keys_upsert u (.empty d) (·.insertSuccessor v)) id
    refine (Table.filter_keys_of_new (Table.keys_upsert _ _ _ _) fun hv => ?_).trans (hsource.trans hall)
    rw [Table.contains_upsert]
    exact Bool.or_eq_true_iff.2 (.inr hv)

/-- An insertion is taken back by removals that spare, of the nodes there are then, those of before, and that spare
every edge of before and none that came in. -/
theorem Sound.updateAll_restores (hg : g.Sound) {i : Update ν} (hi : i.inserts) (hs : (g.update i).Sound)
    (us : List (Update ν)) (hus : ∀ u ∈ us, u.inserts = false)
    (hnodes : ∀ k, (g.update i).hasNode k → us.all (·.sparesNode k) = g.hasNode k)
    (hnew : ∀ a b, i.bringsEdge d a b → us.all (·.sparesEdge d a b) = false)
    (hold : ∀ a b, g.hasEdge a b → us.all (·.sparesEdge d a b)) : (g.update i).updateAll us = g := by
  have hpolicy : ((g.update i).updateAll us).selfLoops = g.selfLoops := by
    rw [selfLoops_updateAll, selfLoops_update]
  refine (hs.updateAll hus).eq_of_records hg hpolicy (Table.eq_of_find? ?_ fun k => ?_)
  · rw [keys_updateAll _ hus]
    exact (List.filter_congr fun k hk => hnodes k (Table.contains_of_mem_keys hk)).trans (filter_keys_update hi)
  · rw [hs.find?_updateAll hus]
    cases hk : g.records.find? k with
    | none =>
      have hbefore : g.hasNode k = false := by rw [hasNode_eq_isSome, hk]; rfl
      cases hi' : (g.update i).records.find? k with
      | none => exact ite_self _
      | some c =>
        rw [hnodes k (by rw [hasNode_eq_isSome, hi']; rfl), hbefore]
        rfl
    | some c =>
      have hbefore : g.hasNode k := by rw [hasNode_eq_isSome, hk]; rfl
      have hthen : (g.update i).hasNode k := by rw [hasNode_update g hi, hbefore, Bool.or_true]
      rw [hnodes k hthen, if_pos hbefore, find?_update_keeping hi hk hnew, hg.keeping_eq_self hk hold]

namespace Sound

/-- An insertion is taken back by the erasure of the nodes that came in, if no edge between nodes of before came in. -/
theorem updateAll_dropNode (hg : g.Sound) {i : Update ν} (hi : i.inserts) (hs : (g.update i).Sound) (xs : List ν)
    (hxs : ∀ x, xs.contains x = (i.bringsNode x && !g.hasNode x))
    (hnew : ∀ a b, i.bringsEdge d a b → (g.hasNode a && g.hasNode b) = false) :
    (g.update i).updateAll (xs.map .dropNode) = g := by
  have hspared : ∀ k, (g.update i).hasNode k → (!xs.contains k) = g.hasNode k := by
    intro k hk
    rw [hasNode_update g hi] at hk
    rw [hxs]
    cases hold : g.hasNode k <;> simp_all
  refine hg.updateAll_restores hi hs _ ?_ (fun k hk => ?_) (fun a b hab => ?_) fun a b hab => ?_
  · simp [Update.inserts]
  · rw [Update.all_sparesNode_dropNode, hspared k hk]
  · have hedge : (g.update i).hasEdge a b := by rw [hasEdge_update g hi, hab, Bool.true_or]
    obtain ⟨ha, hb⟩ := hs.hasNode_of_hasEdge hedge
    rw [Update.all_sparesEdge_dropNode, Bool.not_or, hspared a ha, hspared b hb, hnew a b hab]
  · obtain ⟨ha, hb⟩ := hg.hasNode_of_hasEdge hab
    rw [Update.all_sparesEdge_dropNode, hxs, hxs, ha, hb]
    simp

/-- A node that came in is taken back by its erasure. -/
theorem withNode_undone (hg : g.Sound) {x x' : ν} (hx : g.hasNode x = false) (hxx' : x == x') :
    (g.withNode x).withoutNode x' = g := by
  refine hg.updateAll_dropNode (i := .addNode x) rfl (hg.withNode x) [x'] (fun k => ?_) fun a b hab => ?_
  · rw [Update.bringsNode, List.contains_cons, List.contains_nil, Bool.or_false, BEq.comm, ← BEq.congr_left hxx']
    cases hk : x == k with
    | true => rw [← g.hasNode_congr hk, hx]; rfl
    | false => rfl
  · cases hab

/-- An edge that came in with an end is taken back by the erasure of the nodes that came in. -/
theorem withEdge_undone_by_ends (hg : g.Sound) {u v : ν} (hp : (!g.selfLoops && u == v) = false)
    (huv : (g.hasNode u && g.hasNode v) = false) {xs : List ν}
    (hxs : ∀ x, xs.contains x = ((u == x || v == x) && !g.hasNode x)) :
    (g.withEdge u v).updateAll (xs.map .dropNode) = g := by
  refine hg.updateAll_dropNode (i := .addEdge u v) rfl (hg.withEdge hp) xs hxs fun a b hab => ?_
  simp only [Update.bringsEdge, EdgeKind.edge_beq_edge, Bool.or_eq_true, Bool.and_eq_true] at hab
  obtain ⟨ha, hb⟩ | ⟨⟨-, hb⟩, ha⟩ := hab
  · rwa [← g.hasNode_congr ha, ← g.hasNode_congr hb]
  · rwa [← g.hasNode_congr ha, ← g.hasNode_congr hb, Bool.and_comm]

/-- An edge that came in between nodes of before is taken back by its removal. -/
theorem withEdge_undone (hg : g.Sound) {u v a b : ν} (hp : (!g.selfLoops && u == v) = false)
    (huv : g.hasEdge u v = false) (hu : g.hasNode u) (hv : g.hasNode v) (h : d.edge u v == d.edge a b) :
    (g.withEdge u v).withoutEdge a b = g := by
  refine hg.updateAll_restores (i := .addEdge u v) rfl (hg.withEdge hp) [.dropEdge a b] ?_ (fun k hk => ?_)
    (fun x y hxy => ?_) fun x y hxy => ?_
  · simp [Update.inserts]
  · have hold : g.hasNode k := by
      rw [hasNode_update g rfl, Update.bringsNode, Bool.or_eq_true, Bool.or_eq_true] at hk
      obtain (hk | hk) | hk := hk
      · rwa [← g.hasNode_congr hk]
      · rwa [← g.hasNode_congr hk]
      · exact hk
    rw [hold]
    rfl
  · rw [Update.bringsEdge] at hxy
    simp [Update.sparesEdge, ← BEq.congr_left h, hxy]
  · have hother : (d.edge u v == d.edge x y) = false := by
      rw [Bool.eq_false_iff]
      intro he
      rw [hg.hasEdge_congr he, hxy] at huv
      cases huv
    simp [Update.sparesEdge, ← BEq.congr_left h, hother]

end Sound

/-- Take any graph that changes lead to. A change that reports that nothing changed leaves it as it is. A node that
came in is taken back by its erasure, and an edge between nodes that were there by its removal, which may name it in any
equal way, in an undirected graph also from its other end. An edge that came in with an end, or with both, is taken back
by the erasure of just the nodes that came in, in any order, however written and however often. Taken back means that
it is the graph of before: the same records, with the same forms everywhere, and the same count. -/
theorem removals_undo (h : g.Reachable) :
    (∀ c, (g.change c).answer = .ok false → (g.change c).state = g) ∧
    (∀ x x', (g.change (.insertNode x)).answer = .ok true → x == x' →
      (g.run [.insertNode x, .eraseNode x']).1 = g) ∧
    ∀ s u v, (g.change (.insertEdge s u v)).answer = .ok true →
      (g.hasNode u → g.hasNode v → ∀ a b, d.edge u v == d.edge a b →
        (g.run [.insertEdge s u v, .eraseEdge a b]).1 = g) ∧
      ((g.hasNode u && g.hasNode v) = false → ∀ xs : List ν,
        (∀ x, xs.contains x = ((u == x || v == x) && !g.hasNode x)) →
          (g.run (.insertEdge s u v :: xs.map .eraseNode)).1 = g) := by
  have hg : g.Sound := h.sound
  refine ⟨hg.state_of_answer_false, fun x x' hx hxx' => ?_, fun s u v huv => ?_⟩
  · exact hg.withNode_undone (by simpa [change, insertNode] using hx) hxx'
  · obtain ⟨hp, hnew, hstate⟩ := insertEdge_of_new huv
    refine ⟨fun hu hv a b hab => ?_, fun hends xs hxs => ?_⟩
    · change (g.insertEdge s u v).state.withoutEdge a b = g
      rw [hstate]
      exact hg.withEdge_undone hp hnew hu hv hab
    · change ((g.insertEdge s u v).state.run (xs.map .eraseNode)).1 = g
      rw [hstate, fst_run_eq, List.filterMap_map]
      have hdrops : xs.filterMap (Change.update? d (g.withEdge u v).selfLoops ∘ .eraseNode) = xs.map .dropNode :=
        congrFun (List.filterMap_eq_map (f := Update.dropNode)) xs
      rw [hdrops]
      exact hg.withEdge_undone_by_ends hp hends hxs

/-- Insertions in an undirected graph that are taken back: an edge from its other end, one with two new ends in two
orders, and a self-loop at a new node. The nodes are written one way going in and another going out. -/
theorem removals_undo_swapped :
    let x : Node Atom := .pair (.unordered (.atom (.integer 1)) (.atom (.integer 2)))
    let x' : Node Atom := .pair (.unordered (.atom (.integer 2)) (.atom (.integer 1)))
    let y : Node Atom := .atom (.integer 3)
    let z : Node Atom := .pair (.unordered (.atom (.integer 3)) (.atom (.integer 4)))
    let z' : Node Atom := .pair (.unordered (.atom (.integer 4)) (.atom (.integer 3)))
    let w : Node Atom := .atom (.integer 5)
    let g : Graph (Node Atom) .undirected := ((empty .undirected true).run [.insertEdge .checked x x, .insertNode y]).1
    ((g.change (.insertEdge .checked x' x)).answer = .ok false ∧ (g.change (.insertEdge .checked x' x)).state = g) ∧
    ((g.change (.insertNode z)).answer = .ok true ∧ (g.run [.insertNode z, .eraseNode z']).1 = g) ∧
    (g.run [.insertEdge .checked x' y, .eraseEdge y x]).1 = g ∧
    (g.run [.insertEdge .checked z w, .eraseNode z', .eraseNode w]).1 = g ∧
    (g.run [.insertEdge .checked z w, .eraseNode w, .eraseNode z']).1 = g ∧
    (g.run [.insertEdge .checked z z', .eraseNode z']).1 = g := by
  intro x x' y z z' w g
  have hg : g.Reachable := ((Reachable.empty true).run _).1
  obtain ⟨hsame, hnode, hedge⟩ := removals_undo hg
  have hz : g.hasNode z = false := by decide +kernel
  have hw : g.hasNode w = false := by decide +kernel
  have hzz : z == z' := by decide
  have hzz' : ∀ k, (k == z') = (z == k) := fun k => by rw [BEq.comm, ← BEq.congr_left hzz]
  have hnew : ∀ {a b : Node Atom}, g.hasNode a = false → g.hasNode b = false → ∀ k,
      ((a == k || b == k) && !g.hasNode k) = (a == k || b == k) := by
    intro a b ha hb k
    cases hak : a == k with
    | true => rw [← g.hasNode_congr hak, ha]; rfl
    | false =>
      cases hbk : b == k with
      | true => rw [← g.hasNode_congr hbk, hb]; rfl
      | false => rfl
  have hsameloop : (g.change (.insertEdge .checked x' x)).answer = .ok false := rfl
  refine ⟨⟨hsameloop, hsame _ hsameloop⟩, ⟨rfl, hnode z z' rfl hzz⟩, ?_, ?_, ?_, ?_⟩
  · exact (hedge .checked x' y rfl).1 (by decide +kernel) (by decide +kernel) y x (by decide)
  · refine (hedge .checked z w rfl).2 (by decide +kernel) [z', w] fun k => ?_
    rw [hnew hz hw, List.contains_cons, List.contains_cons, List.contains_nil, Bool.or_false, hzz', BEq.comm (b := w)]
  · refine (hedge .checked z w rfl).2 (by decide +kernel) [w, z'] fun k => ?_
    rw [hnew hz hw, List.contains_cons, List.contains_cons, List.contains_nil, Bool.or_false, hzz', BEq.comm (b := w),
      Bool.or_comm]
  · refine (hedge .checked z z' rfl).2 (by decide +kernel) [z'] fun k => ?_
    rw [hnew hz (by decide +kernel), List.contains_cons, List.contains_nil, Bool.or_false, hzz', ← BEq.congr_left hzz,
      Bool.or_self]

end Graph

end GraphViews
