import GraphViews.Proofs.Forms
import GraphViews.Proofs.Within
/-!
# Which form a graph keeps

A graph remembers nothing of its past but the forms in which it writes its nodes. `forms_kept` tells them from the
history of the graph: a key is written as by the change that last brought the node in, and the two entries of an
edge are written as by the change that last inserted the edge. The changes in between do not matter, because an
insertion leaves what is there as it is, and because an erased edge is struck out at both of its ends.
-/

namespace GraphViews

/-- The nodes that a change is to insert, as it writes them. -/
def Change.names {ν : Type} : Change ν → List ν
  | insertNode x => [x]
  | insertEdge _ u v => [u, v]
  | insertPair _ p => [p.fst, p.snd]
  | eraseNode _ | eraseEdge _ _ | erasePair _ _ => []

/-- The ends of the edge that a change is to insert, as it writes them. -/
def Change.ends? {ν : Type} : Change ν → Option (ν × ν)
  | insertEdge _ u v => some (u, v)
  | insertPair _ p => some p.toProd
  | insertNode _ | eraseNode _ | eraseEdge _ _ | erasePair _ _ => none

variable {ν : Type} [BEq ν] {d : EdgeKind}

namespace Past

/-- Whether the change took a node from absent to present. -/
def brings (p : Past ν d) (x : ν) : Bool := !p.before.hasNode x && p.effect.state.hasNode x

/-- Whether the change is an insertion of the edge from `x` to `y` that was answered with yes. -/
def joins (p : Past ν d) (x y : ν) : Bool :=
  p.effect.answer.toOption == some true && p.change.ends?.any fun e => d.edge e.1 e.2 == d.edge x y

end Past

namespace Graph

variable [EquivBEq ν] {g : Graph ν d}

/-! ## One change -/

/-- A change leaves the key of a present node as it is, and writes that of a new one. -/
theorem key?_change (g : Graph ν d) (c : Change ν) {x : ν} (h : (g.change c).state.hasNode x) :
    (g.change c).state.key? x = (g.key? x).or (form? c.names x) := by
  have hkept : ∀ o, g.hasNode x → g.key? x = (g.key? x).or o := by
    intro o hx
    rw [Option.or_of_isSome (by rw [isSome_key?, hx])]
  have hedge : ∀ s u v, (g.insertEdge s u v).state.hasNode x →
      (g.insertEdge s u v).state.key? x = (g.key? x).or (form? [u, v] x) := by
    intro s u v
    rw [insertEdge_eq]
    split
    · exact hkept _
    · exact fun _ => g.key?_withEdge u v x
  cases c with
  | insertNode z => exact g.key?_withNode z x
  | eraseNode z =>
    have hz : (z == x) = false := by
      rw [Bool.eq_false_iff]
      intro hz
      rw [← isSome_key?] at h
      simp [change, eraseNode, key?_withoutNode, hz] at h
    simp [change, eraseNode, key?_withoutNode, hz, Change.names, form?]
  | insertEdge s u v => exact hedge s u v h
  | eraseEdge u v => simp [change, eraseEdge, key?_withoutEdge, Change.names, form?]
  | insertPair s p =>
    revert h
    rw [change_insertPair]
    split
    · exact hedge s p.fst p.snd
    · exact hkept _
  | erasePair s p =>
    rw [change_erasePair]
    split
    · simp [eraseEdge, key?_withoutEdge, Change.names, form?]
    · simp [refuse, Change.names, form?]

/-- A change leaves an entry that stays as it is, and writes a new one if it inserts the edge. -/
theorem Sound.noted?_change (hg : g.Sound) (c : Change ν) {w : Way} {x y : ν}
    (h : ((g.change c).state.noted? w x y).isSome) :
    (g.change c).state.noted? w x y = (g.noted? w x y).or (c.ends?.bind fun e => d.writes w e.1 e.2 x y) := by
  have hkept : ∀ o, (g.noted? w x y).isSome → g.noted? w x y = (g.noted? w x y).or o := by
    intro o hx
    rw [Option.or_of_isSome hx]
  have hinsert : ∀ s u v, ((g.insertEdge s u v).state.noted? w x y).isSome →
      (g.insertEdge s u v).state.noted? w x y = (g.noted? w x y).or (d.writes w u v x y) := by
    intro s u v
    rw [insertEdge_eq]
    split
    · exact hkept _
    · exact fun _ => g.noted?_withEdge u v w x y
  have herase : ∀ u v, ((g.withoutEdge u v).noted? w x y).isSome →
      (g.withoutEdge u v).noted? w x y = g.noted? w x y := by
    intro u v hxy
    rw [noted?_withoutEdge] at hxy ⊢
    split at hxy
    · cases hxy
    · rw [if_neg ‹_›]
  cases c with
  | insertNode z =>
    rw [Change.ends?, Option.bind_none, Option.or_none]
    exact g.noted?_withNode z w x y
  | eraseNode z =>
    rw [Change.ends?, Option.bind_none, Option.or_none]
    rw [Graph.change, eraseNode, noted?_withoutNode hg.returned] at h ⊢
    split at h
    · cases h
    · rw [if_neg ‹_›]
  | insertEdge s u v => exact hinsert s u v h
  | eraseEdge u v =>
    rw [Change.ends?, Option.bind_none, Option.or_none]
    exact herase u v h
  | insertPair s p =>
    revert h
    rw [change_insertPair]
    split
    · exact hinsert s p.fst p.snd
    · exact hkept _
  | erasePair s p =>
    revert h
    rw [Change.ends?, Option.bind_none, Option.or_none, change_erasePair]
    split
    · exact herase p.fst p.snd
    · exact fun _ => rfl

/-- Exactly the insertions of an edge that are answered with yes take it from absent to present. -/
theorem Sound.joins_eq (hg : g.Sound) (c : Change ν) (x y : ν) :
    (Past.mk g c).joins x y = (!g.hasEdge x y && (g.change c).state.hasEdge x y) := by
  have hinsert : ∀ s u v, ((g.insertEdge s u v).answer.toOption == some true && d.edge u v == d.edge x y) =
      (!g.hasEdge x y && (g.insertEdge s u v).state.hasEdge x y) := by
    intro s u v
    rw [insertEdge_eq]
    split
    · simp [refuse, Except.toOption]
    · simp only [Except.toOption, hasEdge_withEdge]
      by_cases he : d.edge u v == d.edge x y
      · rw [hg.hasEdge_congr he, he]
        cases g.hasEdge x y <;> rfl
      · simp [he]
  have hfewer : c.inserts = false → (!g.hasEdge x y && (g.change c).state.hasEdge x y) = false := by
    intro hc
    have hpair := (hg.kept_of_change hc).2 (d.edge x y)
    rw [hasPair_edge, hasPair_edge] at hpair
    cases hxy : (g.change c).state.hasEdge x y with
    | false => simp
    | true => simp [hpair hxy]
  cases c with
  | insertNode z =>
    have hsame : (g.change (.insertNode z)).state.hasEdge x y = g.hasEdge x y := g.hasEdge_withNode z x y
    rw [hsame]
    simp [Past.joins, Change.ends?]
  | insertEdge s u v => exact hinsert s u v
  | insertPair s p =>
    simp only [Past.joins, Past.effect, Change.ends?, change_insertPair]
    split
    · exact hinsert s p.fst p.snd
    · simp [refuse, Except.toOption]
  | eraseNode z | eraseEdge u v | erasePair s p =>
    rw [hfewer rfl]
    simp [Past.joins, Change.ends?]

/-! ## One insertion -/

/-- No insertion changes a key that is there. -/
theorem key?_kept {c : Change ν} (hc : c.inserts) {x k : ν} (h : g.key? x = some k) :
    (g.change c).state.key? x = some k := by
  have hx : g.hasNode x := by
    rw [← isSome_key?, h]
    rfl
  rw [g.key?_change c ((kept_change hc).1 x hx), h]
  rfl

/-- No insertion changes an entry that is there. -/
theorem Sound.noted?_kept (hg : g.Sound) {c : Change ν} (hc : c.inserts) {w : Way} {x y k : ν}
    (h : g.noted? w x y = some k) : (g.change c).state.noted? w x y = some k := by
  have hpair := (kept_change (g := g) hc).2
  have hsome : ((g.change c).state.noted? w x y).isSome := by
    have hold : (g.noted? w x y).isSome := by rw [h]; rfl
    cases w with
    | outward =>
      rw [isSome_noted?_outward] at hold ⊢
      have := hpair (d.edge x y)
      rw [hasPair_edge, hasPair_edge] at this
      exact this hold
    | inward =>
      rw [isSome_noted?_inward, hg.returned] at hold
      rw [isSome_noted?_inward, (hg.change c).returned]
      have := hpair (d.edge y x)
      rw [hasPair_edge, hasPair_edge] at this
      exact this hold
  rw [hg.noted?_change c hsome, h]
  rfl

/-- Between an entry and the sets of neighbors there is only the union that a directed graph makes of two of them. -/
theorem Sound.form?_neighbors_kept (hg : g.Sound) {c : Change ν} (hc : c.inserts) {side : Side}
    (hside : d = .directed → side ≠ .adjacent) {x y k : ν} (h : form? (g.neighbors side x).items y = some k) :
    form? ((g.change c).state.neighbors side x).items y = some k := by
  cases side with
  | successors =>
    rw [form?_successors] at h ⊢
    exact hg.noted?_kept hc h
  | predecessors =>
    rw [form?_predecessors] at h ⊢
    exact hg.noted?_kept hc h
  | adjacent =>
    cases d with
    | directed => exact absurd rfl (hside rfl)
    | undirected =>
      rw [items_neighbors_undirected, form?_successors] at h ⊢
      exact hg.noted?_kept hc h

/-! ## Another order -/

theorem Rearranged.key?_eq {g' : Graph ν d} (h : g.Rearranged g') (x : ν) : g'.key? x = g.key? x :=
  form?_perm g.records.distinct h.keys x

theorem Rearranged.noted?_eq {g' : Graph ν d} (h : g.Rearranged g') (w : Way) (x y : ν) :
    g'.noted? w x y = g.noted? w x y := by
  have hx := h.records x
  unfold noted?
  revert hx
  generalize g.records.find? x = o, g'.records.find? x = o'
  rintro (hc | _)
  · cases w with
    | outward => exact form?_perm (ItemSet.distinct _) hc.successors y
    | inward => exact form?_perm (ItemSet.distinct _) hc.predecessors y
  · rfl

/-! ## Many changes -/

variable {past : List (Past ν d)}

theorem Traced.key? (h : Traced past g) {x : ν} (hx : g.hasNode x) :
    ∃ p, past.find? (·.brings x) = some p ∧ g.key? x = form? p.change.names x := by
  induction h with
  | empty selfLoops => cases hx
  | @change past g _ c ih =>
    rw [g.key?_change c hx, List.find?_cons]
    cases hb : g.hasNode x with
    | true =>
      obtain ⟨p, hp, hkey⟩ := ih hb
      refine ⟨p, ?_, ?_⟩
      · simpa [Past.brings, hb] using hp
      · rw [Option.or_of_isSome (by rw [isSome_key?, hb]), hkey]
    | false =>
      refine ⟨⟨g, c⟩, ?_, ?_⟩
      · simp [Past.brings, Past.effect, hb, hx]
      · have hnone : g.key? x = none := by simpa [hb] using g.isSome_key? x
        rw [hnone, Option.none_or]
  | rearranged _ hr ih =>
    rw [hr.hasNode_eq] at hx
    rw [hr.key?_eq]
    exact ih hx

theorem Traced.entries (h : Traced past g) {x y : ν} (hxy : g.hasEdge x y) :
    ∃ p u v, past.find? (·.joins x y) = some p ∧ p.change.ends? = some (u, v) ∧ (d.edge u v == d.edge x y) = true ∧
      g.noted? .outward x y = d.writes .outward u v x y ∧ g.noted? .inward y x = d.writes .inward u v y x := by
  induction h with
  | empty selfLoops => cases hxy
  | @change past g h c ih =>
    have hg := h.sound
    have hout : ((g.change c).state.noted? .outward x y).isSome := by rw [isSome_noted?_outward, hxy]
    have hin : ((g.change c).state.noted? .inward y x).isSome := by
      rw [isSome_noted?_inward, (hg.change c).returned, hxy]
    have hjoins := hg.joins_eq c x y
    rw [hxy, Bool.and_true] at hjoins
    rw [hg.noted?_change c hout, hg.noted?_change c hin, List.find?_cons, hjoins]
    cases hb : g.hasEdge x y with
    | true =>
      obtain ⟨p, u, v, hp, hends, he, hfirst, hsecond⟩ := ih hb
      refine ⟨p, u, v, hp, hends, he, ?_, ?_⟩
      · rw [Option.or_of_isSome (by rw [isSome_noted?_outward, hb]), hfirst]
      · rw [Option.or_of_isSome (by rw [isSome_noted?_inward, hg.returned, hb]), hsecond]
    | false =>
      rw [hb, Past.joins, Bool.not_false, Bool.and_eq_true, Option.any_eq_true] at hjoins
      obtain ⟨-, ⟨u, v⟩, hends, he⟩ := hjoins
      have hends : c.ends? = some (u, v) := hends
      have hnone : g.noted? .outward x y = none := by simpa [hb] using g.isSome_noted?_outward x y
      have hnone' : g.noted? .inward y x = none := by simpa [hg.returned, hb] using g.isSome_noted?_inward y x
      refine ⟨⟨g, c⟩, u, v, rfl, hends, he, ?_, ?_⟩
      · rw [hnone, hends, Option.none_or, Option.bind_some]
      · rw [hnone', hends, Option.none_or, Option.bind_some]
  | rearranged _ hr ih =>
    rw [hr.hasEdge_eq] at hxy
    rw [hr.noted?_eq, hr.noted?_eq]
    exact ih hxy

theorem Traced.ends_directed {past : List (Past ν .directed)} {g : Graph ν .directed} (h : Traced past g) {x y : ν}
    (hxy : g.hasEdge x y) : ∃ p u v, past.find? (·.joins x y) = some p ∧ p.change.ends? = some (u, v) ∧
      form? (g.neighbors .successors x).items y = some v ∧ form? (g.neighbors .predecessors y).items x = some u := by
  obtain ⟨p, u, v, hp, hends, he, hout, hin⟩ := h.entries hxy
  obtain ⟨hv, hu⟩ := writes_directed he
  refine ⟨p, u, v, hp, hends, ?_, ?_⟩
  · rw [form?_successors, hout, hv]
  · rw [form?_predecessors, hin, hu]

theorem Traced.ends_undirected {past : List (Past ν .undirected)} {g : Graph ν .undirected} (h : Traced past g)
    {x y : ν} (hxy : g.hasEdge x y) : ∃ p u v, past.find? (·.joins x y) = some p ∧ p.change.ends? = some (u, v) ∧
      ∀ side, form? (g.neighbors side x).items y = some (if v == y then v else u) ∧
        form? (g.neighbors side y).items x = some (if v == x then v else u) := by
  obtain ⟨p, u, v, hp, hends, he, hout, hin⟩ := h.entries hxy
  have he' : EdgeKind.undirected.edge u v == EdgeKind.undirected.edge y x :=
    BEq.trans he (by simp [EdgeKind.edge, Ends.unordered_beq])
  refine ⟨p, u, v, hp, hends, fun side => ⟨?_, ?_⟩⟩
  · rw [items_neighbors_undirected, form?_successors, hout, writes_undirected he]
  · rw [items_neighbors_undirected, ← items_neighbors_undirected g .predecessors, form?_predecessors, hin,
      writes_undirected he']

/-! ## The whole story -/

/-- The forms that a graph keeps are those of its history. -/
structure SpelledBy (past : List (Past ν d)) (g : Graph ν d) : Prop where
  /-- A key is written as by the change that last brought the node in; of the two ends of an edge, as the first of
  them that equals it. -/
  key : ∀ x, g.hasNode x → ∃ p k, past.find? (·.brings x) = some p ∧ form? p.change.names x = some k ∧
    form? g.nodes.items x = some k
  directed : d = .directed → ∀ x y, g.hasEdge x y → ∃ p u v, past.find? (·.joins x y) = some p ∧
    p.change.ends? = some (u, v) ∧ form? (g.neighbors .successors x).items y = some v ∧
    form? (g.neighbors .predecessors y).items x = some u
  /-- Each end of an edge is written as by the change that last inserted the edge; both ends of a self-loop as the
  second. -/
  undirected : d = .undirected → ∀ x y, g.hasEdge x y → ∃ p u v, past.find? (·.joins x y) = some p ∧
    p.change.ends? = some (u, v) ∧ ∀ side, form? (g.neighbors side x).items y = some (if v == y then v else u) ∧
      form? (g.neighbors side y).items x = some (if v == x then v else u)
  /-- No insertion changes a form that is there. (A question about a graph has no graph for its answer.) -/
  kept : ∀ c : Change ν, c.inserts →
    (∀ x k, form? g.nodes.items x = some k → form? (g.change c).state.nodes.items x = some k) ∧
    ∀ side, (d = .directed → side ≠ .adjacent) → ∀ x y k, form? (g.neighbors side x).items y = some k →
      form? ((g.change c).state.neighbors side x).items y = some k
  /-- The edges at `x` show `x` as their view writes it, and the other ends as they are stored. -/
  incident : ∀ (s : Store ν) id, s.graphs[id]? = some ⟨d, g⟩ → ∀ x p,
    (d = .directed → (p ∈ (s.look (.incident id x)).items ↔
      (∃ y ∈ (g.neighbors .predecessors x).items, p = .ordered y x) ∨
        ∃ y ∈ (g.neighbors .successors x).items, (x == y) = false ∧ p = .ordered x y)) ∧
    (d = .undirected → (p ∈ (s.look (.incident id x)).items ↔
      ∃ y ∈ (g.neighbors .adjacent x).items, p = .unordered x y))
  adjacent : ∀ x y, form? (g.neighbors .adjacent x).items y =
    (form? (g.neighbors .predecessors x).items y).or (form? (g.neighbors .successors x).items y)

/-- Whatever changes led to a graph: each of its nodes, wherever the graph writes it, is written as by one of these
changes, namely the last that had to write it there. -/
theorem forms_kept (h : Traced past g) : SpelledBy past g where
  key x hx := by
    obtain ⟨p, hp, hkey⟩ := h.key? hx
    obtain ⟨k, hk⟩ := Option.isSome_iff_exists.1 (by rw [isSome_key?, hx] : (g.key? x).isSome)
    exact ⟨p, k, hp, by rw [← hkey, hk], hk⟩
  directed := by
    rintro rfl x y hxy
    exact h.ends_directed hxy
  undirected := by
    rintro rfl x y hxy
    exact h.ends_undirected hxy
  kept c hc :=
    ⟨fun _ _ hk => key?_kept hc hk, fun _ hside _ _ _ hk => h.sound.form?_neighbors_kept hc hside hk⟩
  incident s id hs x p := by
    have hlook : (s.look (.incident id x)).items = (g.incident x).items := by simp [Store.look, hs]
    rw [hlook]
    constructor
    · rintro rfl
      exact g.mem_incident_directed x p
    · rintro rfl
      exact g.mem_incident_undirected x p
  adjacent := g.form?_adjacent

/-- A node put in by one change, and named differently by the two that insert an edge from it, the second after the
edge was erased: the key stays as the first change wrote it, and the edge is written as by the last. -/
theorem forms_kept_reinserted :
    let x : Node Atom := .pair (.unordered (.atom (.integer 1)) (.atom (.integer 2)))
    let x' : Node Atom := .pair (.unordered (.atom (.integer 2)) (.atom (.integer 1)))
    let y : Node Atom := .atom (.integer 3)
    let cs := [.insertNode x, .insertEdge .checked x y, .eraseEdge x' y, .insertEdge .checked x' y, .insertNode x']
    let g : Graph (Node Atom) .directed := ((empty .directed true).run cs).1
    ∃ past, Traced past g ∧ SpelledBy past g ∧ form? g.nodes.items x' = some x ∧
      form? (g.neighbors .predecessors y).items x = some x' := by
  intro x x' y cs g
  have hg : Traced _ g := (((((Traced.empty true).change (.insertNode x)).change (.insertEdge .checked x y)).change
    (.eraseEdge x' y)).change (.insertEdge .checked x' y)).change (.insertNode x')
  have hnodes : g.nodes.items = [y, x] := by rfl
  have hpredecessors : (g.neighbors .predecessors y).items = [x'] := by rfl
  refine ⟨_, hg, forms_kept hg, ?_, ?_⟩
  · rw [hnodes]
    rfl
  · rw [hpredecessors]
    rfl

end Graph

end GraphViews
