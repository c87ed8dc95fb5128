import GraphViews.Graph.Change
import GraphViews.Proofs.Lookup
/-!
# The invariant of a graph

A graph is sound if every edge is noted at both of its ends, no self-loop is there against the policy, and
the count of edges is right. `Sound.change` says that every change keeps a graph sound. For the erasure of a
node that rests on `Sound.hasCount_at`: the degree is the number of edges that go away.
-/

namespace GraphViews

namespace Graph

variable {ν : Type} [BEq ν] {d : EdgeKind}

/-- The records of a graph agree with each other, with the self-loop policy and with the count. -/
structure Sound (g : Graph ν d) : Prop where
  returned : ∀ u v, g.hasBackEdge u v = g.hasEdge u v
  loopless : g.selfLoops = false → ∀ u, g.hasEdge u u = false
  counted : HasCount g.hasPair g.edgeCount

theorem hasPair_edge (g : Graph ν d) (u v : ν) : g.hasPair (d.edge u v) = g.hasEdge u v := by
  simp [hasPair]

theorem hasPair_withEdge [EquivBEq ν] (g : Graph ν d) (u v : ν) (p : Ends ν) :
    (g.withEdge u v).hasPair p = (g.hasPair p || d.edge u v == p) := by
  rw [hasPair, hasEdge_withEdge, d.edge_beq u v p, hasPair]
  cases d.admits p <;> simp [Bool.or_comm]

theorem hasPair_withoutEdge [EquivBEq ν] (g : Graph ν d) (u v : ν) (p : Ends ν) :
    (g.withoutEdge u v).hasPair p = (g.hasPair p && !(d.edge u v == p)) := by
  rw [hasPair, hasEdge_withoutEdge, d.edge_beq u v p, hasPair]
  cases d.admits p <;> simp

theorem hasPair_withoutNode [EquivBEq ν] {g : Graph ν d} (h : ∀ u v, g.hasBackEdge u v = g.hasEdge u v) (x : ν)
    (p : Ends ν) : (g.withoutNode x).hasPair p = (g.hasPair p && !p.contains x) := by
  rw [hasPair, hasEdge_withoutNode h, hasPair, Ends.contains, BEq.comm (a := x), BEq.comm (a := x), Bool.and_assoc]

theorem sound_empty (d : EdgeKind) (selfLoops : Bool) : (empty d selfLoops : Graph ν d).Sound where
  returned _ _ := rfl
  loopless _ _ := rfl
  counted := .of_none fun p => by simp [hasPair, hasEdge, empty]

theorem selfLoops_withoutNode (g : Graph ν d) (x : ν) : (g.withoutNode x).selfLoops = g.selfLoops := by
  unfold withoutNode
  split <;> rfl

/-- The count goes down by the degree, which is zero for a node that is not there. -/
theorem edgeCount_withoutNode (g : Graph ν d) (x : ν) :
    (g.withoutNode x).edgeCount = g.edgeCount - g.degree x := by
  unfold withoutNode degree
  cases g.records.find? x <;> rfl

/-! ## What a change comes to -/

theorem insertEdge_eq (g : Graph ν d) (s : Strictness) (u v : ν) :
    g.insertEdge s u v = if !g.selfLoops && u == v then g.refuse s (.selfLoop u) else
      { answer := .ok (!g.hasEdge u v), state := g.withEdge u v, events := [.edgeInserted u v (!g.hasEdge u v)] } := by
  unfold insertEdge allowsEdge
  by_cases h : (!g.selfLoops && u == v) = true
  · rw [if_pos h, if_pos h]
  · rw [if_neg h, if_neg h]

theorem change_insertPair (g : Graph ν d) (s : Strictness) (p : Ends ν) :
    g.change (.insertPair s p) = if d.admits p then g.insertEdge s p.fst p.snd else g.refuse s (.wrongKind p) := by
  rw [change, EdgeKind.validate]
  by_cases h : d.admits p <;> simp [h]

theorem change_erasePair (g : Graph ν d) (s : Strictness) (p : Ends ν) :
    g.change (.erasePair s p) = if d.admits p then g.eraseEdge p.fst p.snd else g.refuse s (.wrongKind p) := by
  rw [change, EdgeKind.validate]
  by_cases h : d.admits p <;> simp [h]

/-- What holds of a refusal, of an accepted insertion of an edge and of each other update holds of any change. -/
theorem change_of {P : Effect ν (Graph ν d) → Prop} {g : Graph ν d} (refuse : ∀ s violation, P (g.refuse s violation))
    (insertNode : ∀ x, P (g.insertNode x)) (eraseNode : ∀ x, P (g.eraseNode x))
    (insertEdge : ∀ u v, (!g.selfLoops && u == v) = false →
      P { answer := .ok (!g.hasEdge u v), state := g.withEdge u v, events := [.edgeInserted u v (!g.hasEdge u v)] })
    (eraseEdge : ∀ u v, P (g.eraseEdge u v)) (c : Change ν) : P (g.change c) := by
  have hedge : ∀ s u v, P (g.insertEdge s u v) := by
    intro s u v
    rw [insertEdge_eq]
    by_cases ha : (!g.selfLoops && u == v) = true
    · rw [if_pos ha]
      exact refuse s _
    · rw [if_neg ha]
      exact insertEdge u v (Bool.eq_false_iff.2 ha)
  cases c with
  | insertNode x => exact insertNode x
  | eraseNode x => exact eraseNode x
  | insertEdge s u v => exact hedge s u v
  | eraseEdge u v => exact eraseEdge u v
  | insertPair s p =>
    rw [change_insertPair]
    split
    · exact hedge s p.fst p.snd
    · exact refuse s _
  | erasePair s p =>
    rw [change_erasePair]
    split
    · exact eraseEdge p.fst p.snd
    · exact refuse s _

/-- What holds of a graph and of the graph after each of the four updates holds after any change. -/
theorem state_change_of {P : Graph ν d → Prop} {g : Graph ν d} (h : P g) (withNode : ∀ x, P (g.withNode x))
    (withoutNode : ∀ x, P (g.withoutNode x))
    (withEdge : ∀ u v, (!g.selfLoops && u == v) = false → P (g.withEdge u v))
    (withoutEdge : ∀ u v, P (g.withoutEdge u v)) (c : Change ν) : P (g.change c).state :=
  change_of (P := fun e => P e.state) (fun _ _ => h) withNode withoutNode withEdge withoutEdge c

/-- The policy of a graph never changes. -/
theorem selfLoops_change (g : Graph ν d) (c : Change ν) : (g.change c).state.selfLoops = g.selfLoops :=
  state_change_of (P := fun g' => g'.selfLoops = g.selfLoops) rfl (fun _ => rfl) g.selfLoops_withoutNode
    (fun _ _ _ => rfl) (fun _ _ => rfl) c

namespace Sound

variable {g : Graph ν d}

theorem hasNode_of_hasEdge (hg : g.Sound) {u v : ν} (h : g.hasEdge u v) : g.hasNode u ∧ g.hasNode v :=
  ⟨Graph.hasNode_of_hasEdge h, Graph.hasNode_of_hasBackEdge (by rw [hg.returned]; exact h)⟩

variable [EquivBEq ν]

/-- An undirected edge goes both ways. -/
theorem hasEdge_congr (hg : g.Sound) {u v a b : ν} (h : d.edge u v == d.edge a b) :
    g.hasEdge u v = g.hasEdge a b := by
  rw [← hasPair_edge, ← hasPair_edge]
  exact hg.counted.eq_of_beq h

/-! ## The edges at a node -/

/-- The record of a node finds the edges at it. -/
theorem contains_incident (hg : g.Sound) (x : ν) (p : Ends ν) :
    (g.incident x).contains p = (g.hasPair p && p.contains x) := by
  have hany : (g.incident x).contains p = (d.admits p &&
      ((p.fst == x && g.hasEdge x p.snd) || (p.snd == x && g.hasBackEdge p.fst x))) := by
    simp only [incident, hasEdge, hasBackEdge, Neighborhood.hasIncident_eq]
    cases g.records.find? x <;> simp
  rw [hany, hg.returned, hasPair, Ends.contains]
  by_cases hf : p.fst == x <;> by_cases hs : p.snd == x
  · rw [Graph.hasEdge_congr g (BEq.symm hf) (BEq.refl p.snd), Graph.hasEdge_congr g (BEq.refl p.fst) (BEq.symm hs)]
    simp [hf, hs]
  · rw [Graph.hasEdge_congr g (BEq.symm hf) (BEq.refl p.snd)]
    simp [hf, hs]
  · rw [Graph.hasEdge_congr g (BEq.refl p.fst) (BEq.symm hs)]
    simp [hf, hs]
  · simp [hf, hs]

theorem lawful_incident (hg : g.Sound) (x : ν) : (g.incident x).Lawful := by
  have hloop := hg.returned x x
  unfold incident degree
  unfold hasBackEdge hasEdge at hloop
  cases hx : g.records.find? x with
  | none => exact ⟨.nil, rfl, fun _ => rfl, rfl⟩
  | some c =>
    simp only [hx, Option.any_some] at hloop
    exact ⟨c.distinct_incident x, (c.length_incident x).symm,
      fun p => (Neighborhood.elem_incident_of_loop (fun h => hloop ▸ h) p).symm, rfl⟩

/-- The degree of a node is the number of edges at it. -/
theorem hasCount_at (hg : g.Sound) (x : ν) : HasCount (fun p => g.hasPair p && p.contains x) (g.degree x) :=
  (hg.lawful_incident x).hasCount.congr fun p => (hg.contains_incident x p).symm

/-- All edges at a node are counted. -/
theorem degree_le_edgeCount (hg : g.Sound) (x : ν) : g.degree x ≤ g.edgeCount :=
  (hg.hasCount_at x).le hg.counted fun _ hp => (Bool.and_eq_true_iff.1 hp).1

/-- An edge that is there is counted. -/
theorem edgeCount_pos (hg : g.Sound) {u v : ν} (h : g.hasEdge u v) : 1 ≤ g.edgeCount := by
  refine (HasCount.single (d.edge u v)).le hg.counted fun p hp => ?_
  rw [← hg.counted.eq_of_beq hp, hasPair_edge]
  exact h

/-! ## Every change keeps a graph sound -/

theorem withNode (hg : g.Sound) (x : ν) : (g.withNode x).Sound where
  returned u v := by rw [hasBackEdge_withNode, hasEdge_withNode, hg.returned]
  loopless h u := by rw [hasEdge_withNode, hg.loopless h]
  counted := hg.counted.congr fun p => by simp only [hasPair, hasEdge_withNode]

theorem withEdge (hg : g.Sound) {u v : ν} (ha : (!g.selfLoops && u == v) = false) : (g.withEdge u v).Sound where
  returned a b := by rw [hasBackEdge_withEdge, hasEdge_withEdge, hg.returned]
  loopless h a := by
    have huv : (u == v) = false := by
      simpa [show g.selfLoops = false from h] using ha
    have hne : (d.edge u v == d.edge a a) = false := by
      rw [Bool.eq_false_iff]
      intro he
      have hloop := EdgeKind.loop_congr he
      rw [huv, BEq.rfl] at hloop
      cases hloop
    rw [hasEdge_withEdge, hne, hg.loopless h, Bool.or_false]
  counted := by
    have hn : (g.withEdge u v).edgeCount = if g.hasEdge u v then g.edgeCount else g.edgeCount + 1 := rfl
    rw [hn]
    by_cases h : g.hasEdge u v
    · rw [if_pos h]
      refine hg.counted.congr fun p => ?_
      rw [hasPair_withEdge]
      by_cases he : d.edge u v == p
      · rw [← hg.counted.eq_of_beq he, hasPair_edge, h, Bool.true_or]
      · simp [he]
    · rw [if_neg h]
      refine (hg.counted.or (.single (d.edge u v)) fun p hpair => ?_).congr (hasPair_withEdge g u v)
      rw [Bool.eq_false_iff]
      intro he
      rw [← hg.counted.eq_of_beq he, hasPair_edge] at hpair
      exact h hpair

theorem withoutEdge (hg : g.Sound) (u v : ν) : (g.withoutEdge u v).Sound where
  returned a b := by rw [hasBackEdge_withoutEdge, hasEdge_withoutEdge, hg.returned]
  loopless h a := by rw [hasEdge_withoutEdge, hg.loopless h, Bool.false_and]
  counted := by
    have hn : (g.withoutEdge u v).edgeCount = if g.hasEdge u v then g.edgeCount - 1 else g.edgeCount := rfl
    rw [hn]
    by_cases h : g.hasEdge u v
    · rw [if_pos h]
      refine (hg.counted.sub (.single (d.edge u v)) fun p he => ?_).congr (hasPair_withoutEdge g u v)
      rw [← hg.counted.eq_of_beq he, hasPair_edge]
      exact h
    · rw [if_neg h]
      refine hg.counted.congr fun p => ?_
      rw [hasPair_withoutEdge]
      by_cases he : d.edge u v == p
      · rw [← hg.counted.eq_of_beq he, hasPair_edge]
        simp [h]
      · simp [he]

theorem withoutNode (hg : g.Sound) (x : ν) : (g.withoutNode x).Sound where
  returned a b := by rw [hasBackEdge_withoutNode hg.returned, hasEdge_withoutNode hg.returned, hg.returned]
  loopless h a := by
    rw [hasEdge_withoutNode hg.returned, hg.loopless (by rwa [selfLoops_withoutNode] at h), Bool.false_and]
  counted := by
    -- The count goes down by the degree that the record of `x` had before it was erased.
    rw [edgeCount_withoutNode]
    refine (hg.counted.sub (hg.hasCount_at x) fun p => by simp +contextual).congr fun p => ?_
    rw [hasPair_withoutNode hg.returned]
    cases g.hasPair p <;> simp

/-- Whatever change is made, accepted or refused, the graph stays sound. -/
theorem change (hg : g.Sound) (c : Change ν) : (g.change c).state.Sound :=
  state_change_of hg hg.withNode hg.withoutNode (fun _ _ => hg.withEdge) hg.withoutEdge c

end Sound

end Graph

end GraphViews
