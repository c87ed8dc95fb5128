import GraphViews.Proofs.Agreement
/-!
# Combined sets

A view of any depth reads as one set, provided that its leaves do: the laws of a reading go up from the leaves
through holders and unions. The leaves of a store do, because a stored set is made without repetition and the
sets of a reachable graph agree.
-/

namespace GraphViews

/-! ## From the leaves up -/

/-- A holder tells by the size whether its set is empty, which the laws say is the same. -/
theorem Reading.Lawful.held {α : Type} [BEq α] {r : Reading α} (h : r.Lawful) : r.held.Lawful where
  distinct := h.distinct
  size_eq := h.size_eq
  contains_eq := h.contains_eq
  isEmpty_eq := rfl

/-- A set that may be missing; a missing one has no items. -/
theorem Reading.lawful_getD {α γ : Type} [BEq α] {o : Option γ} {f : γ → Reading α}
    (h : ∀ c, o = some c → (f c).Lawful) : ((o.map f).getD .empty).Lawful := by
  cases o with
  | none => exact lawful_empty
  | some c => exact h c rfl

theorem Reading.contains_getD {α γ : Type} (o : Option γ) (f : γ → Reading α) (x : α) :
    ((o.map f).getD .empty).contains x = o.any fun c => (f c).contains x := by
  cases o <;> rfl

namespace View

variable {ι α : Type}

/-- A view contains what one of its leaves contains. -/
theorem contains_read (look : ι → Reading α) (v : View ι) (x : α) :
    (v.read look).contains x ↔ ∃ l ∈ v.leaves, (look l).contains x := by
  induction v with
  | leaf l => simp [read, leaves]
  | held _ v ih => exact ih
  | unmodifiable v ih => exact ih
  | union a b iha ihb =>
    simp only [read, Reading.union, Bool.or_eq_true, iha, ihb, leaves, List.mem_append]
    constructor
    · rintro (⟨l, hl, hx⟩ | ⟨l, hl, hx⟩)
      · exact ⟨l, .inl hl, hx⟩
      · exact ⟨l, .inr hl, hx⟩
    · rintro ⟨l, hl | hl, hx⟩
      · exact .inl ⟨l, hl, hx⟩
      · exact .inr ⟨l, hl, hx⟩

/-- A view gains what its leaves gain. -/
theorem contains_read_mono {look look' : ι → Reading α} {v : View ι} {x : α}
    (h : ∀ l, (look l).contains x → (look' l).contains x) (hx : (v.read look).contains x) :
    (v.read look').contains x := by
  obtain ⟨l, hl, hx⟩ := (contains_read look v x).1 hx
  exact (contains_read look' v x).2 ⟨l, hl, h l hx⟩

theorem lawful_read [BEq α] [EquivBEq α] {look : ι → Reading α} {v : View ι}
    (h : ∀ l ∈ v.leaves, (look l).Lawful) : (v.read look).Lawful := by
  induction v with
  | leaf l => exact h l (by simp [leaves])
  | held _ v ih => exact (ih h).held
  | unmodifiable v ih => exact ih h
  | union a b iha ihb =>
    have ha : (a.read look).Lawful := iha fun l hl => h l (List.mem_append_left _ hl)
    have hb : (b.read look).Lawful := ihb fun l hl => h l (List.mem_append_right _ hl)
    exact ha.union hb

end View

/-- The plain text of a set has a comma and a blank between two items. -/
theorem plainListing_eq {α : Type} [Written α] (xs : List α) :
    plainListing xs = "[" ++ ", ".intercalate (xs.map Written.plain) ++ "]" := by
  have h : ∀ ss : List String, commaSeparated ss = ", ".intercalate ss := by
    intro ss
    induction ss with
    | nil => rfl
    | cons s ss ih =>
      cases ss with
      | nil => simp [commaSeparated]
      | cons t rest => rw [commaSeparated, ih, String.intercalate_cons_cons]
  rw [plainListing, h]

/-! ## The leaves of a store -/

variable {ν : Type} [BEq ν]

instance [EquivBEq ν] : (kind : ItemKind) → EquivBEq (kind.Item ν)
  | .node => inferInstanceAs (EquivBEq ν)
  | .edge => inferInstanceAs (EquivBEq (Ends ν))

instance {ν : Type} [Written ν] : (kind : ItemKind) → Written (kind.Item ν)
  | .node => inferInstanceAs (Written ν)
  | .edge => inferInstanceAs (Written (Ends ν))

namespace Store

variable [EquivBEq ν] {s : Store ν} {kind : ItemKind}

theorem Grown.sound (h : s.Grown) {id : Nat} {g : AnyGraph ν} (hg : s.graphs[id]? = some g) : g.graph.Sound :=
  (h.reachable (List.mem_of_getElem? hg)).sound

theorem Grown.lawful_look (h : s.Grown) (l : Leaf ν kind) : (s.look l).Lawful := by
  cases l with
  | stored kind id => exact Reading.lawful_getD fun set _ => set.lawful_reading
  | nodes id => exact Reading.lawful_getD fun g _ => g.graph.lawful_nodes
  | neighbors id side x => exact Reading.lawful_getD fun g _ => g.graph.lawful_neighbors side x
  | edges id => exact Reading.lawful_getD fun g hg => (h.sound hg).lawful_edges
  | incident id x => exact Reading.lawful_getD fun g hg => (h.sound hg).lawful_incident x

theorem Grown.lawful_read (h : s.Grown) (v : View (Leaf ν kind)) : (s.read v).Lawful :=
  View.lawful_read fun l _ => h.lawful_look l

/-- However a store came about, a view into it, of any depth and over any leaves, is one set: no two of its items
are equal, it counts them right, it contains what equals one of them, and that is what a leaf contains. Going
through the view yields these items, and so does its text. -/
theorem views_agree [Written ν] (h : s.Grown) (v : View (Leaf ν kind)) :
    Distinct (s.read v).items ∧
    (s.read v).size = (s.read v).items.length ∧
    ((s.read v).isEmpty ↔ (s.read v).size = 0) ∧
    (∀ x, (s.read v).contains x ↔ ∃ y ∈ (s.read v).items, x == y) ∧
    (∀ x, (s.read v).contains x ↔ ∃ l ∈ v.leaves, (s.look l).contains x) ∧
    s.collect v = (s.read v).items ∧
    plainListing (s.collect v) = "[" ++ ", ".intercalate ((s.read v).items.map Written.plain) ++ "]" := by
  have hv := h.lawful_read v
  have hcollect : s.collect v = (s.read v).items := Cursor.drain_start s.look v
  refine ⟨hv.distinct, hv.size_eq, ?_, fun x => ?_, View.contains_read s.look v, hcollect, ?_⟩
  · rw [hv.isEmpty_eq, beq_iff_eq]
  · rw [hv.contains_eq, elem_iff]
  · rw [plainListing_eq, hcollect]

/-- A stored set beside the nodes of a graph and, behind a cell, itself once more: one node, written in two ways. -/
theorem views_agree_overlapping :
    let x : Node Atom := .pair (.unordered (.atom (.integer 1)) (.atom (.integer 2)))
    let x' : Node Atom := .pair (.unordered (.atom (.integer 2)) (.atom (.integer 1)))
    let y : Node Atom := .atom (.integer 3)
    let g : AnyGraph (Node Atom) := ⟨.undirected, ({ selfLoops := true } : Settings .undirected).build⟩
    let set : ItemSet (ItemKind.node.Item (Node Atom)) := ItemSet.ofList [x]
    let s := ((({} : Store (Node Atom)).addGraph g).addSet set).change (.graph 0 (.insertEdge .checked x' y))
    let v : View (Leaf (Node Atom) .node) := .union (.held .handle (.leaf (.stored .node 0)))
      (.unmodifiable (.union (.leaf (.nodes 0)) (.held .cell (.leaf (.stored .node 0)))))
    s.Grown ∧ (s.read v).size = (s.read v).items.length ∧ (s.read v).size = 2 ∧
      plainListing (s.collect v) = "[[1, 2], 3]" := by
  intro x x' y g set s v
  have hs : s.Grown := ((Grown.empty.build .undirected { selfLoops := true }).addSet set).change _
  obtain ⟨-, hsize, -, -, -, -, htext⟩ := views_agree hs v
  exact ⟨hs, hsize, rfl, htext.trans (by decide +kernel)⟩

end Store

end GraphViews
