import GraphViews.Proofs.Agreement
/-!
# How a graph writes its nodes

Equal nodes can be written in different ways, and a graph keeps one form of each: of a node as the key of its
record, and of a neighbor as the entry in the record of the node at the other end. Each update is described by the
forms after it.
-/

namespace GraphViews

/-- How the items of a list write the item that equals `x`. -/
def form? {α : Type} [BEq α] (xs : List α) (x : α) : Option α := xs.find? (x == ·)

section
variable {α : Type} [BEq α]

theorem form?_cons (y : α) (xs : List α) (x : α) :
    form? (y :: xs) x = if x == y then some y else form? xs x := by
  unfold form?
  rw [List.find?_cons]
  split <;> simp_all

theorem form?_singleton [PartialEquivBEq α] (y x : α) : form? [y] x = if y == x then some y else none := by
  rw [form?_cons, BEq.comm]
  rfl

theorem form?_append (xs ys : List α) (x : α) : form? (xs ++ ys) x = (form? xs x).or (form? ys x) := by
  unfold form?
  rw [List.find?_append]

theorem isSome_form? (xs : List α) (x : α) : (form? xs x).isSome = xs.contains x := by
  unfold form?
  rw [List.isSome_find?, List.contains_eq_any_beq]

theorem form?_eq_none {xs : List α} {x : α} (h : xs.contains x = false) : form? xs x = none := by
  rwa [← Option.not_isSome_iff_eq_none, isSome_form?, Bool.not_eq_true]

/-- Without equal items, the form is the one item that equals `x`. -/
theorem form?_eq_some_iff [PartialEquivBEq α] {xs : List α} (h : Distinct xs) (x y : α) :
    form? xs x = some y ↔ y ∈ xs ∧ x == y := by
  unfold form?
  constructor
  · intro hf
    exact ⟨List.mem_of_find?_eq_some hf, List.find?_some hf⟩
  · rintro ⟨hy, hxy⟩
    obtain ⟨z, hz⟩ : ∃ z, xs.find? (x == ·) = some z := by
      rw [← Option.isSome_iff_exists, List.find?_isSome]
      exact ⟨y, hy, hxy⟩
    have hxz := List.find?_some hz
    rw [hz, h.eq_of_beq (List.mem_of_find?_eq_some hz) hy (BEq.trans (BEq.symm hxz) hxy)]

/-- The order of the items does not matter. -/
theorem form?_perm [PartialEquivBEq α] {xs ys : List α} (hx : Distinct xs) (h : xs.Perm ys) (x : α) :
    form? ys x = form? xs x := by
  have hy : Distinct ys := h.pairwise hx fun hab => by rw [BEq.comm, hab]
  apply Option.ext
  intro y
  rw [form?_eq_some_iff hy, form?_eq_some_iff hx, h.mem_iff]

/-- An item that is added leaves those that are there as they are written. -/
theorem form?_add [EquivBEq α] (xs : List α) (y x : α) :
    form? (if xs.contains y then xs else y :: xs) x = (form? xs x).or (form? [y] x) := by
  rw [form?_singleton, BEq.comm]
  cases hxy : x == y with
  | false =>
    split
    · simp
    · simp [form?_cons, hxy]
  | true =>
    cases hy : xs.contains y with
    | true =>
      have hx : (form? xs x).isSome := by rw [isSome_form?, elem_congr xs hxy, hy]
      simp [Option.or_of_isSome hx]
    | false =>
      have hx : form? xs x = none := form?_eq_none (by rw [elem_congr xs hxy, hy])
      simp [form?_cons, hxy, hx]

/-- A filter that does not tell equal items apart leaves `x` out, or leaves it as it is written. -/
theorem form?_filter (xs : List α) {p : α → Bool} (hp : ∀ {x y}, x == y → p x = p y) (x : α) :
    form? (xs.filter p) x = if p x then form? xs x else none := by
  unfold form?
  rw [List.find?_filter]
  cases hx : p x with
  | false =>
    rw [if_neg Bool.false_ne_true, List.find?_eq_none]
    intro z _
    cases hxz : x == z with
    | false => simp
    | true => simp [← hp hxz, hx]
  | true =>
    have hsame : (fun z => decide (p z = true ∧ (x == z) = true)) = fun z => x == z := by
      funext z
      cases hxz : x == z with
      | false => simp
      | true => simp [← hp hxz, hx]
    rw [hsame]
    rfl

theorem form?_filter_not [PartialEquivBEq α] (xs : List α) (y x : α) :
    form? (xs.filter fun z => !(y == z)) x = if y == x then none else form? xs x := by
  rw [form?_filter xs (fun h => by rw [BEq.congr_right h])]
  cases y == x <;> rfl

end

theorem ItemSet.form?_insert {α : Type} [BEq α] [EquivBEq α] (s : ItemSet α) (y x : α) :
    form? (s.insert y).items x = (form? s.items x).or (form? [y] x) := by
  rw [items_insert, ← form?_add]
  rfl

/-! ## Tables -/

namespace Table

variable {κ α γ : Type} [BEq κ] [EquivBEq κ]

/-- What is found through the value at a key, after an entry is made or changed so that `e` is found as well. -/
theorem bind_find?_upsert (t : Table κ α) (k k' : κ) (a : α) (f : α → α) {P : α → Option γ} {b : Bool} {e : Option γ}
    (ha : P a = none) (hf : ∀ c, P (f c) = (P c).or (if b then e else none)) :
    ((t.upsert k a f).find? k').bind P = ((t.find? k').bind P).or (if k == k' && b then e else none) := by
  rw [find?_upsert]
  cases hk : k == k' with
  | false => simp
  | true =>
    rw [if_pos rfl, ← t.find?_congr hk]
    cases t.find? k <;> simp [hf, ha]

theorem bind_find?_modify (t : Table κ α) (k k' : κ) (f : α → α) {P : α → Option γ} {b : Bool}
    (hf : ∀ c, P (f c) = if b then none else P c) :
    ((t.modify k f).find? k').bind P = if k == k' && b then none else (t.find? k').bind P := by
  rw [find?_modify]
  cases hk : k == k' with
  | false => simp
  | true => cases t.find? k' <;> simp [hf]

theorem form?_keys_insertNew (t : Table κ α) (k : κ) (a : α) (x : κ) :
    form? (t.insertNew k a).keys x = (form? t.keys x).or (form? [k] x) := by
  rw [keys_insertNew, contains_eq_elem_keys, form?_add]

theorem form?_keys_upsert (t : Table κ α) (k : κ) (a : α) (f : α → α) (x : κ) :
    form? (t.upsert k a f).keys x = (form? t.keys x).or (form? [k] x) := by
  rw [keys_upsert, contains_eq_elem_keys, form?_add]

end Table

/-! ## The two ways of an edge -/

/-- Along an edge or against it. -/
inductive Way where
  | outward
  | inward
  deriving DecidableEq

/-- The neighbors of a node that edges lead to, one way or the other. -/
def Neighborhood.toward {ν : Type} [BEq ν] {d : EdgeKind} (c : Neighborhood ν d) : Way → ItemSet ν
  | .outward => c.successors
  | .inward => c.predecessors

/-- Whether a neighbor that is noted one way is found the other way. -/
def EdgeKind.shares (d : EdgeKind) (w w' : Way) : Bool := w == w' || !d.isDirected

/-- What inserting the edge from `u` to `v` writes for `y` into the record of `x`. -/
def EdgeKind.writes {ν : Type} [BEq ν] (d : EdgeKind) (w : Way) (u v x y : ν) : Option ν :=
  (if u == x && d.shares .outward w then form? [v] y else none).or
    (if v == x && d.shares .inward w then form? [u] y else none)

variable {ν : Type} [BEq ν] {d : EdgeKind}

namespace Neighborhood

variable [EquivBEq ν]

theorem form?_toward_insertSuccessor (c : Neighborhood ν d) (w : Way) (z y : ν) :
    form? ((c.insertSuccessor z).toward w).items y =
      (form? (c.toward w).items y).or (if d.shares .outward w then form? [z] y else none) := by
  cases c <;> cases w <;>
    simp [insertSuccessor, toward, successors, predecessors, EdgeKind.shares, EdgeKind.isDirected,
      ItemSet.form?_insert]

theorem form?_toward_insertPredecessor (c : Neighborhood ν d) (w : Way) (z y : ν) :
    form? ((c.insertPredecessor z).toward w).items y =
      (form? (c.toward w).items y).or (if d.shares .inward w then form? [z] y else none) := by
  cases c <;> cases w <;>
    simp [insertPredecessor, toward, successors, predecessors, EdgeKind.shares, EdgeKind.isDirected,
      ItemSet.form?_insert]

theorem form?_toward_eraseSuccessor (c : Neighborhood ν d) (w : Way) (z y : ν) :
    form? ((c.eraseSuccessor z).toward w).items y =
      if d.shares .outward w && z == y then none else form? (c.toward w).items y := by
  cases c <;> cases w <;>
    simp [eraseSuccessor, toward, successors, predecessors, EdgeKind.shares, EdgeKind.isDirected, form?_filter_not]

theorem form?_toward_erasePredecessor (c : Neighborhood ν d) (w : Way) (z y : ν) :
    form? ((c.erasePredecessor z).toward w).items y =
      if d.shares .inward w && z == y then none else form? (c.toward w).items y := by
  cases c <;> cases w <;>
    simp [erasePredecessor, toward, successors, predecessors, EdgeKind.shares, EdgeKind.isDirected, form?_filter_not]

theorem form?_toward_without (c : Neighborhood ν d) (w : Way) (z y : ν) :
    form? ((c.without z).toward w).items y = if z == y then none else form? (c.toward w).items y := by
  cases w <;> simp [toward, form?_filter_not]

end Neighborhood

/-! ## Graphs -/

namespace Graph

/-- How the key of the record of `x` is written. -/
def key? (g : Graph ν d) (x : ν) : Option ν := form? g.records.keys x

/-- How `y` is written in the record of `x`, among the neighbors that edges lead to one way. -/
def noted? (g : Graph ν d) (w : Way) (x y : ν) : Option ν :=
  (g.records.find? x).bind fun c => form? (c.toward w).items y

theorem isSome_key? (g : Graph ν d) (x : ν) : (g.key? x).isSome = g.hasNode x := by
  rw [key?, isSome_form?]
  exact ((lawful_nodes g).contains_eq x).symm

theorem isSome_noted?_outward (g : Graph ν d) (x y : ν) : (g.noted? .outward x y).isSome = g.hasEdge x y := by
  unfold noted? hasEdge
  cases g.records.find? x with
  | none => rfl
  | some c => exact isSome_form? _ y

theorem isSome_noted?_inward (g : Graph ν d) (x y : ν) : (g.noted? .inward x y).isSome = g.hasBackEdge y x := by
  unfold noted? hasBackEdge
  cases g.records.find? x with
  | none => rfl
  | some c => exact isSome_form? _ y

/-! ### In the sets that a graph hands out -/

theorem form?_successors (g : Graph ν d) (x y : ν) :
    form? (g.neighbors .successors x).items y = g.noted? .outward x y := by
  unfold neighbors noted?
  cases g.records.find? x <;> rfl

theorem form?_predecessors (g : Graph ν d) (x y : ν) :
    form? (g.neighbors .predecessors x).items y = g.noted? .inward x y := by
  unfold neighbors noted?
  cases g.records.find? x <;> rfl

/-- Without directions a node has one set of neighbors, whatever it is called. -/
theorem items_neighbors_undirected (g : Graph ν .undirected) (side : Side) (x : ν) :
    (g.neighbors side x).items = (g.neighbors .successors x).items := by
  unfold neighbors
  cases g.records.find? x with
  | none => rfl
  | some c => cases c; cases side <;> rfl

/-- The edges at `x` show `x` as it is written here, and the other ends as they are stored. -/
theorem mem_incident_directed (g : Graph ν .directed) (x : ν) (p : Ends ν) : p ∈ (g.incident x).items ↔
    (∃ y ∈ (g.neighbors .predecessors x).items, p = .ordered y x) ∨
      ∃ y ∈ (g.neighbors .successors x).items, (x == y) = false ∧ p = .ordered x y := by
  unfold incident neighbors
  cases g.records.find? x with
  | none => simp [Reading.empty]
  | some c =>
    cases c with
    | split predecessors successors =>
      simp only [Option.map_some, Option.getD_some, Neighborhood.incident, Neighborhood.neighbors,
        Neighborhood.predecessors, Neighborhood.successors, ItemSet.reading, List.mem_append, List.mem_map,
        List.mem_filter, Bool.not_eq_true', and_assoc, eq_comm (a := p)]

theorem mem_incident_undirected (g : Graph ν .undirected) (x : ν) (p : Ends ν) :
    p ∈ (g.incident x).items ↔ ∃ y ∈ (g.neighbors .adjacent x).items, p = .unordered x y := by
  unfold incident neighbors
  cases g.records.find? x with
  | none => simp [Reading.empty]
  | some c =>
    cases c with
    | shared neighbors =>
      simp only [Option.map_some, Option.getD_some, Neighborhood.incident, Neighborhood.neighbors,
        Neighborhood.adjacent, ItemSet.reading, List.mem_map, eq_comm (a := p)]

/-! ### After an update -/

theorem key?_withoutEdge (g : Graph ν d) (u v x : ν) : (g.withoutEdge u v).key? x = g.key? x := by
  rw [key?, withoutEdge, Table.keys_modify, Table.keys_modify]
  rfl

variable [EquivBEq ν]

theorem key?_withNode (g : Graph ν d) (z x : ν) : (g.withNode z).key? x = (g.key? x).or (form? [z] x) :=
  g.records.form?_keys_insertNew z _ x

theorem noted?_withNode (g : Graph ν d) (z : ν) (w : Way) (x y : ν) : (g.withNode z).noted? w x y = g.noted? w x y := by
  unfold noted? withNode
  rw [Table.find?_insertNew]
  cases hz : z == x with
  | false => rfl
  | true =>
    rw [if_pos rfl, g.records.find?_congr hz]
    cases g.records.find? x <;> cases w <;> simp [Neighborhood.toward, form?, ItemSet.empty]

theorem key?_withEdge (g : Graph ν d) (u v x : ν) : (g.withEdge u v).key? x = (g.key? x).or (form? [u, v] x) := by
  have happ : form? [u, v] x = (form? [u] x).or (form? [v] x) := form?_append [u] [v] x
  rw [key?, withEdge, Table.form?_keys_upsert, Table.form?_keys_upsert, Option.or_assoc, ← happ]
  rfl

theorem noted?_withEdge (g : Graph ν d) (u v : ν) (w : Way) (x y : ν) :
    (g.withEdge u v).noted? w x y = (g.noted? w x y).or (d.writes w u v x y) := by
  have hempty : form? ((Neighborhood.empty d : Neighborhood ν d).toward w).items y = none := by
    cases d <;> cases w <;> rfl
  have hsucc : ((g.records.upsert u (.empty d) (·.insertSuccessor v)).find? x).bind
        (fun c => form? (c.toward w).items y) =
      (g.noted? w x y).or (if u == x && d.shares .outward w then form? [v] y else none) :=
    Table.bind_find?_upsert g.records u x _ _ hempty fun c => c.form?_toward_insertSuccessor w v y
  have hpred : (g.withEdge u v).noted? w x y =
      (((g.records.upsert u (.empty d) (·.insertSuccessor v)).find? x).bind fun c => form? (c.toward w).items y).or
        (if v == x && d.shares .inward w then form? [u] y else none) :=
    Table.bind_find?_upsert _ v x _ _ hempty fun c => c.form?_toward_insertPredecessor w u y
  rw [hpred, hsucc, Option.or_assoc]
  rfl

/-- Erasing an edge strikes out what inserting it writes. -/
theorem noted?_withoutEdge (g : Graph ν d) (u v : ν) (w : Way) (x y : ν) :
    (g.withoutEdge u v).noted? w x y = if (d.writes w u v x y).isSome then none else g.noted? w x y := by
  have hsucc : ((g.records.modify u (·.eraseSuccessor v)).find? x).bind (fun c => form? (c.toward w).items y) =
      if u == x && (d.shares .outward w && v == y) then none else g.noted? w x y :=
    Table.bind_find?_modify g.records u x _ fun c => c.form?_toward_eraseSuccessor w v y
  have hpred : (g.withoutEdge u v).noted? w x y =
      if v == x && (d.shares .inward w && u == y) then none else
        ((g.records.modify u (·.eraseSuccessor v)).find? x).bind fun c => form? (c.toward w).items y :=
    Table.bind_find?_modify _ v x _ fun c => c.form?_toward_erasePredecessor w u y
  rw [hpred, hsucc, EdgeKind.writes, form?_singleton, form?_singleton]
  cases u == x <;> cases v == x <;> cases d.shares .outward w <;> cases d.shares .inward w <;> cases u == y <;>
    cases v == y <;> rfl

theorem key?_withoutNode (g : Graph ν d) (z x : ν) : (g.withoutNode z).key? x = if z == x then none else g.key? x := by
  rw [key?, keys_withoutNode, form?_filter_not]
  rfl

theorem noted?_withoutNode {g : Graph ν d} (h : ∀ u v, g.hasBackEdge u v = g.hasEdge u v) (z : ν) (w : Way) (x y : ν) :
    (g.withoutNode z).noted? w x y = if z == x || z == y then none else g.noted? w x y := by
  unfold noted?
  rw [find?_withoutNode h]
  cases hx : z == x with
  | true => rfl
  | false => cases g.records.find? x <;> simp [Neighborhood.form?_toward_without]

/-- A node that is found both ways shows as it is written among the predecessors. -/
theorem form?_adjacent (g : Graph ν d) (x y : ν) : form? (g.neighbors .adjacent x).items y =
    (form? (g.neighbors .predecessors x).items y).or (form? (g.neighbors .successors x).items y) := by
  unfold neighbors
  cases g.records.find? x with
  | none => rfl
  | some c =>
    cases c with
    | shared neighbors => exact (Option.or_self).symm
    | split predecessors successors =>
      change form? (predecessors.items ++ successors.items.filter fun z => !predecessors.contains z) y = _
      rw [form?_append]
      cases hy : predecessors.contains y with
      | true =>
        have hsome : (form? predecessors.items y).isSome := by
          rw [isSome_form?]
          exact hy
        rw [Option.or_of_isSome hsome]
        exact (Option.or_of_isSome hsome).symm
      | false =>
        have hrest : form? (successors.items.filter fun z => !predecessors.contains z) y =
            form? successors.items y := by
          unfold form?
          rw [List.find?_filter]
          congr 1
          funext z
          cases hyz : y == z with
          | false => simp
          | true => simp [← predecessors.contains_congr hyz, hy]
        rw [hrest]
        rfl

/-! ### Where an edge is written -/

/-- Where inserting a directed edge writes its ends. -/
theorem writes_directed {u v x y : ν} (h : EdgeKind.directed.edge u v == EdgeKind.directed.edge x y) :
    EdgeKind.directed.writes .outward u v x y = some v ∧ EdgeKind.directed.writes .inward u v y x = some u := by
  rw [EdgeKind.edge, EdgeKind.edge, Ends.ordered_beq, Bool.and_eq_true] at h
  obtain ⟨hu, hv⟩ := h
  constructor
  · simp [EdgeKind.writes, EdgeKind.shares, EdgeKind.isDirected, hu, form?, BEq.symm hv]
  · simp [EdgeKind.writes, EdgeKind.shares, EdgeKind.isDirected, hv, form?, BEq.symm hu]

/-- Where inserting an undirected edge writes its ends. The node is written as the second end if it equals both. -/
theorem writes_undirected {u v x y : ν} (h : EdgeKind.undirected.edge u v == EdgeKind.undirected.edge x y) (w : Way) :
    EdgeKind.undirected.writes w u v x y = some (if v == y then v else u) := by
  have hw : ∀ w', EdgeKind.undirected.shares w' w = true := fun w' => by simp [EdgeKind.shares]
  rw [EdgeKind.writes, hw, hw, Bool.and_true, Bool.and_true, form?_singleton, form?_singleton]
  rw [EdgeKind.edge, EdgeKind.edge, Ends.unordered_beq, Bool.or_eq_true, Bool.and_eq_true, Bool.and_eq_true] at h
  rcases h with ⟨hu, hv⟩ | ⟨hu, hv⟩
  · simp [hu, hv]
  · by_cases hvy : v == y
    · -- A self-loop: both ends equal both nodes.
      have hux : u == x := BEq.trans hu (BEq.trans (BEq.symm hvy) hv)
      simp [hux, hvy]
    · simp [hu, hv, hvy]

end Graph

end GraphViews
