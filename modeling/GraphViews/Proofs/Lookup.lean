import GraphViews.Graph.Sets
import GraphViews.Proofs.Record
import GraphViews.Table.Lemmas
/-!
# What the changes to a graph do to its edges

Every edge is noted at both of its ends: `hasEdge` asks the end it goes out of, `hasBackEdge` the end it comes
into. Each change is described by what the two answer after it. Only the erasure of a node needs that they
agree before it, because it looks up nothing but the neighbors of that node.
-/

namespace GraphViews

/-! ## Tables -/

namespace Table

variable {κ α : Type} [BEq κ]

section
variable [EquivBEq κ]

/-- A question about the value at a key, after an entry is made or changed so that it answers yes. -/
theorem any_find?_upsert (t : Table κ α) (k k' : κ) (a : α) (f : α → α) {P : α → Bool} {e : Bool}
    (ha : P a = false) (hf : ∀ c, P (f c) = (e || P c)) :
    ((t.upsert k a f).find? k').any P = ((k == k' && e) || (t.find? k').any P) := by
  rw [find?_upsert]
  by_cases hk : k == k'
  · rw [if_pos hk, ← t.find?_congr hk]
    cases t.find? k <;> simp [hk, hf, ha]
  · simp [hk]

/-- A question about the value at a key, after a change to a value that makes the answer no. -/
theorem any_find?_modify (t : Table κ α) (k k' : κ) (f : α → α) {P : α → Bool} {e : Bool}
    (hf : ∀ c, P (f c) = (P c && !e)) :
    ((t.modify k f).find? k').any P = ((t.find? k').any P && !(k == k' && e)) := by
  rw [find?_modify]
  by_cases hk : k == k'
  · rw [if_pos hk]
    cases t.find? k' <;> simp [hk, hf]
  · simp [hk]

/-- Changing the values at several keys, no two of them equal, changes each of these values once. -/
theorem find?_foldl_modify (t : Table κ α) {ks : List κ} (h : Distinct ks) (f : α → α) (k : κ) :
    (ks.foldl (fun t k => t.modify k f) t).find? k = if ks.contains k then (t.find? k).map f else t.find? k := by
  induction ks generalizing t with
  | nil => rfl
  | cons k' ks ih =>
    obtain ⟨hk', hks⟩ := List.pairwise_cons.1 h
    rw [List.foldl_cons, ih _ hks, find?_modify, List.contains_cons, BEq.comm (a := k)]
    by_cases hkk : k' == k
    · have hn : ks.contains k = false := by
        rw [← elem_congr ks hkk, Bool.eq_false_iff]
        intro hc
        obtain ⟨y, hy, hky⟩ := (elem_iff ks k').1 hc
        rw [hk' y hy] at hky
        cases hky
      simp [hkk, hn]
    · simp [hkk]

end

end Table

namespace Graph

variable {ν : Type} [BEq ν] {d : EdgeKind}

/-- Whether `v` lists `u` as a predecessor: the edge from `u` to `v`, looked up at its other end. -/
def hasBackEdge (g : Graph ν d) (u v : ν) : Bool := (g.records.find? v).any (·.predecessors.contains u)

/-- In an undirected graph a record has one set for both sides. -/
theorem hasBackEdge_undirected (g : Graph ν .undirected) (u v : ν) : g.hasBackEdge u v = g.hasEdge v u := by
  simp only [hasBackEdge, hasEdge, Neighborhood.predecessors_eq_successors]

theorem hasNode_eq_isSome (g : Graph ν d) (x : ν) : g.hasNode x = (g.records.find? x).isSome :=
  Table.contains_eq_isSome _ _

theorem hasNode_of_hasEdge {g : Graph ν d} {u v : ν} (h : g.hasEdge u v) : g.hasNode u := by
  rw [hasNode_eq_isSome]
  rw [hasEdge, Option.any_eq_true] at h
  obtain ⟨c, hc, -⟩ := h
  simp [hc]

theorem hasNode_of_hasBackEdge {g : Graph ν d} {u v : ν} (h : g.hasBackEdge u v) : g.hasNode v := by
  rw [hasNode_eq_isSome]
  rw [hasBackEdge, Option.any_eq_true] at h
  obtain ⟨c, hc, -⟩ := h
  simp [hc]

/-! ## Records left out -/

theorem keys_withoutEdge (g : Graph ν d) (u v : ν) : (g.withoutEdge u v).records.keys = g.records.keys := by
  rw [withoutEdge, Table.keys_modify, Table.keys_modify]

theorem keys_withoutNode (g : Graph ν d) (x : ν) :
    (g.withoutNode x).records.keys = g.records.keys.filter fun k => !(x == k) := by
  unfold withoutNode
  cases hx : g.records.find? x with
  | some c =>
    change (detach g.records x c).keys = _
    unfold detach
    split <;> simp only [Table.keys_foldl_modify, Table.keys_erase]
  | none =>
    have hn : g.records.keys.contains x = false := by
      rw [← Table.contains_eq_elem_keys, Table.contains_eq_isSome, hx, Option.isSome_none]
    refine (List.filter_eq_self.2 fun k hk => ?_).symm
    rw [List.contains_eq_any_beq, List.any_eq_false] at hn
    simpa using hn k hk

section
variable [EquivBEq ν]

theorem hasNode_congr (g : Graph ν d) {x y : ν} (h : x == y) : g.hasNode x = g.hasNode y :=
  g.records.contains_congr h

theorem hasEdge_congr (g : Graph ν d) {u u' v v' : ν} (hu : u == u') (hv : v == v') :
    g.hasEdge u v = g.hasEdge u' v' := by
  simp only [hasEdge, g.records.find?_congr hu, fun c : Neighborhood ν d => c.successors.contains_congr hv]

theorem hasBackEdge_congr (g : Graph ν d) {u u' v v' : ν} (hu : u == u') (hv : v == v') :
    g.hasBackEdge u v = g.hasBackEdge u' v' := by
  simp only [hasBackEdge, g.records.find?_congr hv, fun c : Neighborhood ν d => c.predecessors.contains_congr hu]

/-! ## Inserting a node -/

theorem hasNode_withNode (g : Graph ν d) (x y : ν) : (g.withNode x).hasNode y = (x == y || g.hasNode y) := by
  rw [hasNode_eq_isSome, hasNode_eq_isSome, withNode, Table.find?_insertNew]
  by_cases h : x == y <;> simp [h]

theorem hasEdge_withNode (g : Graph ν d) (x u v : ν) : (g.withNode x).hasEdge u v = g.hasEdge u v := by
  rw [hasEdge, hasEdge, withNode, Table.find?_insertNew]
  by_cases h : x == u
  · rw [if_pos h, g.records.find?_congr h]
    cases g.records.find? u <;> simp
  · simp [h]

theorem hasBackEdge_withNode (g : Graph ν d) (x u v : ν) :
    (g.withNode x).hasBackEdge u v = g.hasBackEdge u v := by
  rw [hasBackEdge, hasBackEdge, withNode, Table.find?_insertNew]
  by_cases h : x == v
  · rw [if_pos h, g.records.find?_congr h]
    cases g.records.find? v <;> simp
  · simp [h]

/-! ## Inserting an edge -/

theorem hasNode_withEdge (g : Graph ν d) (u v x : ν) :
    (g.withEdge u v).hasNode x = (u == x || v == x || g.hasNode x) := by
  simp only [hasNode_eq_isSome, withEdge, Table.find?_upsert]
  by_cases hu : u == x <;> by_cases hv : v == x <;> simp [hu, hv]

theorem hasEdge_withEdge (g : Graph ν d) (u v a b : ν) :
    (g.withEdge u v).hasEdge a b = (d.edge u v == d.edge a b || g.hasEdge a b) := by
  have hs : ∀ c : Neighborhood ν d,
      (c.insertSuccessor v).successors.contains b = (v == b || c.successors.contains b) := by
    intro c
    rw [Neighborhood.successors_insertSuccessor, ItemSet.contains_insert]
  have hp : ∀ c : Neighborhood ν d, (c.insertPredecessor u).successors.contains b =
      ((!d.isDirected && u == b) || c.successors.contains b) := by
    intro c
    rw [Neighborhood.successors_insertPredecessor]
    cases d <;> simp [EdgeKind.isDirected, ItemSet.contains_insert]
  rw [hasEdge, hasEdge, withEdge, Table.any_find?_upsert _ _ _ _ _ (by simp) hp,
    Table.any_find?_upsert _ _ _ _ _ (by simp) hs, ← Bool.or_assoc]
  congr 1
  cases d with
  | directed => simp [EdgeKind.isDirected, EdgeKind.edge, Ends.ordered_beq]
  | undirected =>
    simp only [EdgeKind.isDirected, EdgeKind.edge, Ends.unordered_beq, Bool.not_false, Bool.true_and]
    rw [Bool.or_comm, Bool.and_comm (v == a)]

theorem hasBackEdge_withEdge (g : Graph ν d) (u v a b : ν) :
    (g.withEdge u v).hasBackEdge a b = (d.edge u v == d.edge a b || g.hasBackEdge a b) := by
  have hs : ∀ c : Neighborhood ν d, (c.insertSuccessor v).predecessors.contains a =
      ((!d.isDirected && v == a) || c.predecessors.contains a) := by
    intro c
    rw [Neighborhood.predecessors_insertSuccessor]
    cases d <;> simp [EdgeKind.isDirected, ItemSet.contains_insert]
  have hp : ∀ c : Neighborhood ν d,
      (c.insertPredecessor u).predecessors.contains a = (u == a || c.predecessors.contains a) := by
    intro c
    rw [Neighborhood.predecessors_insertPredecessor, ItemSet.contains_insert]
  rw [hasBackEdge, hasBackEdge, withEdge, Table.any_find?_upsert _ _ _ _ _ (by simp) hp,
    Table.any_find?_upsert _ _ _ _ _ (by simp) hs, ← Bool.or_assoc]
  congr 1
  cases d with
  | directed =>
    simp [EdgeKind.isDirected, EdgeKind.edge, Ends.ordered_beq, Bool.and_comm]
  | undirected =>
    simp only [EdgeKind.isDirected, EdgeKind.edge, Ends.unordered_beq, Bool.not_false, Bool.true_and]
    rw [Bool.and_comm (v == b)]

/-! ## Erasing an edge -/

theorem hasNode_withoutEdge (g : Graph ν d) (u v x : ν) : (g.withoutEdge u v).hasNode x = g.hasNode x := by
  simp only [hasNode_eq_isSome, withoutEdge, Table.find?_modify]
  by_cases hu : u == x <;> by_cases hv : v == x <;> simp [hu, hv]

theorem hasEdge_withoutEdge (g : Graph ν d) (u v a b : ν) :
    (g.withoutEdge u v).hasEdge a b = (g.hasEdge a b && !(d.edge u v == d.edge a b)) := by
  have hs : ∀ c : Neighborhood ν d,
      (c.eraseSuccessor v).successors.contains b = (c.successors.contains b && !(v == b)) := by
    intro c
    rw [Neighborhood.successors_eraseSuccessor, ItemSet.contains_erase, Bool.and_comm]
  have hp : ∀ c : Neighborhood ν d, (c.erasePredecessor u).successors.contains b =
      (c.successors.contains b && !(!d.isDirected && u == b)) := by
    intro c
    rw [Neighborhood.successors_erasePredecessor]
    cases d <;> simp [EdgeKind.isDirected, ItemSet.contains_erase, Bool.and_comm]
  rw [hasEdge, hasEdge, withoutEdge, Table.any_find?_modify _ _ _ _ hp, Table.any_find?_modify _ _ _ _ hs,
    Bool.and_assoc]
  congr 1
  cases d with
  | directed => simp [EdgeKind.isDirected, EdgeKind.edge, Ends.ordered_beq]
  | undirected =>
    simp only [EdgeKind.isDirected, EdgeKind.edge, Ends.unordered_beq, Bool.not_false, Bool.true_and, Bool.not_or]
    rw [Bool.and_comm (v == a)]

theorem hasBackEdge_withoutEdge (g : Graph ν d) (u v a b : ν) :
    (g.withoutEdge u v).hasBackEdge a b = (g.hasBackEdge a b && !(d.edge u v == d.edge a b)) := by
  have hs : ∀ c : Neighborhood ν d, (c.eraseSuccessor v).predecessors.contains a =
      (c.predecessors.contains a && !(!d.isDirected && v == a)) := by
    intro c
    rw [Neighborhood.predecessors_eraseSuccessor]
    cases d <;> simp [EdgeKind.isDirected, ItemSet.contains_erase, Bool.and_comm]
  have hp : ∀ c : Neighborhood ν d,
      (c.erasePredecessor u).predecessors.contains a = (c.predecessors.contains a && !(u == a)) := by
    intro c
    rw [Neighborhood.predecessors_erasePredecessor, ItemSet.contains_erase, Bool.and_comm]
  rw [hasBackEdge, hasBackEdge, withoutEdge, Table.any_find?_modify _ _ _ _ hp, Table.any_find?_modify _ _ _ _ hs,
    Bool.and_assoc]
  congr 1
  cases d with
  | directed => simp [EdgeKind.isDirected, EdgeKind.edge, Ends.ordered_beq, Bool.and_comm]
  | undirected =>
    simp only [EdgeKind.isDirected, EdgeKind.edge, Ends.unordered_beq, Bool.not_false, Bool.true_and, Bool.not_or]
    rw [Bool.and_comm (v == b), Bool.and_comm (!(u == b && v == a))]

/-! ## Erasing a node -/

/-- The records after `x` is struck out of the neighbors that its record `c` lists. -/
theorem find?_detach (t : Table ν (Neighborhood ν d)) (x : ν) (c : Neighborhood ν d) (k : ν) :
    (detach t x c).find? k = if x == k then none else
      (t.find? k).map fun r =>
        let r := if c.successors.contains k then r.erasePredecessor x else r
        if d.isDirected && c.predecessors.contains k then r.eraseSuccessor x else r := by
  have hdist : ∀ s : ItemSet ν, Distinct (s.items.filter fun y => !(x == y)) := fun s => s.distinct.filter _
  unfold detach
  by_cases hk : x == k
  · cases d <;> simp [EdgeKind.isDirected, Table.find?_foldl_modify _ (hdist _), Table.find?_erase, hk]
  · have hothers : ∀ s : ItemSet ν, (s.items.filter fun y => !(x == y)).contains k = s.contains k := by
      intro s
      rw [elem_filter _ fun e => by rw [BEq.congr_right e]]
      simp only [hk, Bool.not_false, Bool.and_true]
      rfl
    cases d with
    | directed =>
      simp only [EdgeKind.isDirected, if_true, Bool.true_and, Table.find?_foldl_modify _ (hdist _), hothers,
        Table.find?_erase, hk]
      cases t.find? k <;> by_cases hs : c.successors.contains k <;> by_cases hp : c.predecessors.contains k <;>
        simp [hs, hp]
    | undirected =>
      simp only [EdgeKind.isDirected, Bool.false_eq_true, if_false, Bool.false_and,
        Table.find?_foldl_modify _ (hdist _), hothers, Table.find?_erase, hk]
      cases t.find? k <;> by_cases hs : c.successors.contains k <;> simp [hs]

/-- Where every edge is noted at both of its ends, looking up the neighbors of `x` only strikes `x` out of all
records. -/
theorem find?_withoutNode {g : Graph ν d} (h : ∀ u v, g.hasBackEdge u v = g.hasEdge u v) (x k : ν) :
    (g.withoutNode x).records.find? k = if x == k then none else (g.records.find? k).map (·.without x) := by
  have hpred : ∀ r, g.records.find? k = some r → r.predecessors.contains x = g.hasEdge x k := by
    intro r hr
    simp [← h, hasBackEdge, hr]
  have hsucc : ∀ r, g.records.find? k = some r → r.successors.contains x = g.hasBackEdge k x := by
    intro r hr
    simp [h, hasEdge, hr]
  unfold withoutNode
  cases hx : g.records.find? x with
  | none =>
    by_cases hk : x == k
    · simp [hk, ← g.records.find?_congr hk, hx]
    · cases hr : g.records.find? k with
      | none => simp [hk]
      | some r =>
        -- No record lists a node that has none itself.
        have hp : r.predecessors.contains x = false := by simp [hpred r hr, hasEdge, hx]
        have hs : r.successors.contains x = false := by simp [hsucc r hr, hasBackEdge, hx]
        rw [if_neg hk, Option.map_some, ← Neighborhood.strike_eq_without, hp, hs]
        simp
  | some c =>
    rw [find?_detach]
    by_cases hk : x == k
    · simp [hk]
    · cases hr : g.records.find? k with
      | none => simp [hk]
      | some r =>
        have hp : c.successors.contains k = r.predecessors.contains x := by simp [hpred r hr, hasEdge, hx]
        have hs : c.predecessors.contains k = r.successors.contains x := by simp [hsucc r hr, hasBackEdge, hx]
        rw [if_neg hk, if_neg hk, Option.map_some, Option.map_some, ← Neighborhood.strike_eq_without, hp, hs]

theorem hasNode_withoutNode {g : Graph ν d} (h : ∀ u v, g.hasBackEdge u v = g.hasEdge u v) (x y : ν) :
    (g.withoutNode x).hasNode y = (g.hasNode y && !(x == y)) := by
  rw [hasNode_eq_isSome, hasNode_eq_isSome, find?_withoutNode h]
  by_cases hy : x == y <;> simp [hy]

theorem hasEdge_withoutNode {g : Graph ν d} (h : ∀ u v, g.hasBackEdge u v = g.hasEdge u v) (x a b : ν) :
    (g.withoutNode x).hasEdge a b = (g.hasEdge a b && !(x == a || x == b)) := by
  rw [hasEdge, hasEdge, find?_withoutNode h]
  by_cases ha : x == a
  · simp [ha]
  · cases g.records.find? a <;> simp [ha, ItemSet.contains_erase, Bool.and_comm]

theorem hasBackEdge_withoutNode {g : Graph ν d} (h : ∀ u v, g.hasBackEdge u v = g.hasEdge u v) (x a b : ν) :
    (g.withoutNode x).hasBackEdge a b = (g.hasBackEdge a b && !(x == a || x == b)) := by
  rw [hasBackEdge, hasBackEdge, find?_withoutNode h]
  by_cases hb : x == b
  · simp [hb]
  · cases g.records.find? b <;> simp [hb, ItemSet.contains_erase, Bool.and_comm]

end

end Graph

end GraphViews
