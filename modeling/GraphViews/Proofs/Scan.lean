import GraphViews.Graph.Check
import GraphViews.Proofs.Sound
/-!
# Scanning the records

A scan of the records lists every edge of a directed graph once, and every edge of an undirected graph at both
of its ends, a self-loop once. `doubledCount_eq` says that the scan of the check therefore counts every edge
twice, so halving it loses nothing, and `check_eq_ok_iff` that the check passes exactly the sound graphs.
-/

namespace GraphViews

/-- A question about the value at a key is a question about the entries. -/
theorem Table.any_find? {κ α : Type} [BEq κ] [PartialEquivBEq κ] (t : Table κ α) (k : κ) (P : α → Bool) :
    (t.find? k).any P = t.entries.any fun e => k == e.1 && P e.2 := by
  rw [Bool.eq_iff_iff, Option.any_eq_true, List.any_eq_true]
  constructor
  · rintro ⟨a, ha, hP⟩
    obtain ⟨k', hm, hk⟩ := (t.find?_eq_some_iff k a).1 ha
    exact ⟨(k', a), hm, by simp [hk, hP]⟩
  · rintro ⟨⟨k', a⟩, hm, h⟩
    rw [Bool.and_eq_true] at h
    exact ⟨a, (t.find?_eq_some_iff k a).2 ⟨k', hm, h.1⟩, h.2⟩

namespace Graph

variable {ν : Type} [BEq ν] {d : EdgeKind}

theorem hasEdge_iff_entry [PartialEquivBEq ν] (g : Graph ν d) (u v : ν) :
    g.hasEdge u v ↔ ∃ e ∈ g.records.entries, u == e.1 ∧ e.2.successors.contains v := by
  rw [hasEdge, Table.any_find?]
  simp

theorem hasBackEdge_iff_entry [PartialEquivBEq ν] (g : Graph ν d) (u v : ν) :
    g.hasBackEdge u v ↔ ∃ e ∈ g.records.entries, v == e.1 ∧ e.2.predecessors.contains u := by
  rw [hasBackEdge, Table.any_find?]
  simp

/-! ## The listed edges -/

/-- The listed edges, each in the direction in which it is listed. -/
def arcs (g : Graph ν d) : List (Ends ν) := g.listed.map fun e => .ordered e.1 e.2

theorem arcs_eq_flatMap (g : Graph ν d) :
    g.arcs = g.records.entries.flatMap fun e => e.2.successors.items.map (Ends.ordered e.1 ·) := by
  simp [arcs, listed, List.map_flatMap, Function.comp_def]

theorem distinct_arcs (g : Graph ν d) : Distinct g.arcs := by
  rw [arcs_eq_flatMap]
  refine List.pairwise_flatMap.2 ⟨fun e _ => ?_, ?_⟩
  · refine List.pairwise_map.2 (e.2.successors.distinct.imp fun {a b} hab => ?_)
    rw [Ends.ordered_beq, hab, Bool.and_false]
  · refine (List.pairwise_map.1 g.records.distinct).imp fun {e e'} hee p hp q hq => ?_
    obtain ⟨y, -, rfl⟩ := List.mem_map.1 hp
    obtain ⟨z, -, rfl⟩ := List.mem_map.1 hq
    rw [Ends.ordered_beq, hee, Bool.false_and]

theorem distinct_edges (g : Graph ν d) : Distinct g.edges.items := by
  cases d with
  | directed => exact g.distinct_arcs
  | undirected => exact (ItemSet.ofList g.listedEdges).distinct

section
variable [EquivBEq ν]

theorem elem_arcs (g : Graph ν d) (p : Ends ν) : g.arcs.contains p = (p.isOrdered && g.hasEdge p.fst p.snd) := by
  rw [arcs_eq_flatMap, List.contains_flatMap, hasEdge, Table.any_find?]
  simp only [Neighborhood.elem_map_ordered_right, Bool.and_assoc]
  cases p.isOrdered <;> simp [ItemSet.contains]

theorem hasEdge_iff_listed (g : Graph ν d) (u v : ν) : g.hasEdge u v ↔ ∃ e ∈ g.listed, u == e.1 ∧ v == e.2 := by
  have h : g.arcs.contains (.ordered u v) = g.hasEdge u v := g.elem_arcs (.ordered u v)
  rw [← h, arcs, elem_map]
  simp [Ends.ordered_beq]

/-- An edge is listed at its first end, or at its second if it has no direction. -/
theorem elem_listedEdges (g : Graph ν d) (p : Ends ν) : g.listedEdges.contains p =
    (d.admits p && (g.hasEdge p.fst p.snd || (!d.isDirected && g.hasEdge p.snd p.fst))) := by
  rw [Bool.eq_iff_iff, listedEdges, elem_map, Bool.and_eq_true, Bool.or_eq_true, Bool.and_eq_true,
    hasEdge_iff_listed, hasEdge_iff_listed]
  cases d <;> cases p <;> simp [EdgeKind.edge, EdgeKind.admits, EdgeKind.isDirected, Ends.isOrdered, Ends.fst,
    Ends.snd, Ends.ordered_beq, Ends.unordered_beq]
  rename_i u v
  constructor
  · rintro ⟨a, b, hm, h | h⟩
    · exact .inl ⟨a, b, hm, h⟩
    · exact .inr ⟨a, b, hm, h.symm⟩
  · rintro (⟨a, b, hm, h⟩ | ⟨a, b, hm, h⟩)
    · exact ⟨a, b, hm, .inl h⟩
    · exact ⟨a, b, hm, .inr h.symm⟩

/-- Where every edge is noted at both of its ends, the listed edges are the edges that are there. -/
theorem elem_listedEdges_of_returned {g : Graph ν d} (h : ∀ u v, g.hasBackEdge u v = g.hasEdge u v) (p : Ends ν) :
    g.listedEdges.contains p = g.hasPair p := by
  rw [elem_listedEdges, hasPair]
  cases d with
  | directed => simp
  | undirected =>
    have hsymm : g.hasEdge p.snd p.fst = g.hasEdge p.fst p.snd := by rw [← hasBackEdge_undirected, h]
    rw [hsymm]
    simp

theorem elem_edges {g : Graph ν d} (h : ∀ u v, g.hasBackEdge u v = g.hasEdge u v) (p : Ends ν) :
    g.edges.items.contains p = g.hasPair p := by
  rw [← elem_listedEdges_of_returned h]
  cases d with
  | directed => rfl
  | undirected => exact ItemSet.contains_ofList g.listedEdges p

theorem Sound.lawful_edges {g : Graph ν d} (hg : g.Sound) : g.edges.Lawful where
  distinct := g.distinct_edges
  size_eq := hg.counted.unique (.of_distinct g.distinct_edges (elem_edges hg.returned))
  contains_eq p := (elem_edges hg.returned p).symm
  isEmpty_eq := rfl

end

/-! ## Counting every edge twice -/

/-- The directions in which an undirected edge is listed: both, but a self-loop only once. -/
def directions (p : Ends ν) : List (Ends ν) :=
  if p.isLoop then [.ordered p.fst p.snd] else [.ordered p.fst p.snd, .ordered p.snd p.fst]

theorem distinct_directions (p : Ends ν) : Distinct (directions p) := by
  unfold directions
  split
  · exact List.pairwise_singleton _ _
  · rename_i hl
    have hne : (p.fst == p.snd) = false := by simpa [Ends.isLoop] using hl
    simp [Distinct, Ends.ordered_beq, hne]

section
variable [EquivBEq ν]

theorem elem_directions (p q : Ends ν) :
    (directions p).contains q = (q.isOrdered && Ends.unordered p.fst p.snd == .unordered q.fst q.snd) := by
  unfold directions
  cases q with
  | unordered a b => split <;> simp
  | ordered a b =>
    rw [Ends.unordered_beq]
    by_cases hl : p.isLoop
    · -- The two ends are equal, so both directions are one.
      have hab : (p.fst == b && p.snd == a) = (p.fst == a && p.snd == b) := by
        rw [BEq.congr_left hl, ← BEq.congr_left hl (c := a), Bool.and_comm]
      simp [hl, hab, Ends.ordered_beq, BEq.comm (a := a), BEq.comm (a := b)]
    · simp [hl, Ends.ordered_beq, BEq.comm (a := a), BEq.comm (a := b), Bool.and_comm]

theorem length_directions (p : Ends ν) : (directions p).length + (directions p).countP Ends.isLoop = 2 := by
  unfold directions
  by_cases hl : p.isLoop
  · have hl' : (p.fst == p.snd) = true := hl
    simp [Ends.isLoop, hl']
  · have hl' : (p.fst == p.snd) = false := by simpa [Ends.isLoop] using hl
    have hl'' : (p.snd == p.fst) = false := by rw [BEq.comm, hl']
    simp [Ends.isLoop, hl', hl'']

theorem length_flatMap_directions (ps : List (Ends ν)) :
    (ps.flatMap directions).length + (ps.flatMap directions).countP Ends.isLoop = 2 * ps.length := by
  induction ps with
  | nil => rfl
  | cons p ps ih =>
    have hp := length_directions p
    simp only [List.flatMap_cons, List.length_append, List.countP_append, List.length_cons]
    omega

theorem unordered_of_mem_edges {g : Graph ν .undirected} (h : ∀ u v, g.hasBackEdge u v = g.hasEdge u v) {p : Ends ν}
    (hp : p ∈ g.edges.items) : Ends.unordered p.fst p.snd = p := by
  have hpair : g.hasPair p := by
    rw [← elem_edges h]
    exact elem_of_mem hp
  rw [hasPair, Bool.and_eq_true] at hpair
  exact EdgeKind.edge_fst_snd hpair.1

/-- A scan of an undirected graph goes through the two directions of every edge. -/
theorem elem_flatMap_directions {g : Graph ν .undirected} (h : ∀ u v, g.hasBackEdge u v = g.hasEdge u v) (q : Ends ν) :
    (g.edges.items.flatMap directions).contains q = g.arcs.contains q := by
  have hpair : g.hasPair (.unordered q.fst q.snd) = g.hasEdge q.fst q.snd := by simp [hasPair, EdgeKind.admits]
  have hmem : ∀ p ∈ g.edges.items, Ends.unordered p.fst p.snd = p := fun p => unordered_of_mem_edges h
  rw [elem_arcs, ← hpair, ← elem_edges h, List.contains_flatMap, Bool.eq_iff_iff]
  simp only [elem_directions, List.any_eq_true, Bool.and_eq_true, elem_iff]
  constructor
  · rintro ⟨p, hp, ho, he⟩
    exact ⟨ho, p, hp, by rw [hmem p hp] at he; exact BEq.symm he⟩
  · rintro ⟨ho, p, hp, he⟩
    exact ⟨p, hp, ho, by rw [hmem p hp]; exact BEq.symm he⟩

theorem distinct_flatMap_directions {g : Graph ν .undirected} (h : ∀ u v, g.hasBackEdge u v = g.hasEdge u v) :
    Distinct (g.edges.items.flatMap directions) := by
  refine List.pairwise_flatMap.2 ⟨fun p _ => distinct_directions p, ?_⟩
  refine List.Pairwise.imp_of_mem (fun {p q} hp hq hpq x hx y hy => ?_) g.distinct_edges
  rw [Bool.eq_false_iff]
  intro hxy
  have hpx : (directions p).contains x := elem_of_mem hx
  have hqx : (directions q).contains x := by
    rw [elem_congr _ hxy]
    exact elem_of_mem hy
  rw [elem_directions, unordered_of_mem_edges h hp, Bool.and_eq_true] at hpx
  rw [elem_directions, unordered_of_mem_edges h hq, Bool.and_eq_true] at hqx
  rw [BEq.trans hpx.2 (BEq.symm hqx.2)] at hpq
  cases hpq

/-- The scan of the check counts every edge twice, in graphs of both kinds and whatever self-loops there are. -/
theorem doubledCount_eq {g : Graph ν d} (h : ∀ u v, g.hasBackEdge u v = g.hasEdge u v) :
    g.doubledCount = 2 * g.edges.items.length := by
  have hlen : g.listed.length = g.arcs.length := by simp [arcs]
  have hloops : (g.listed.countP fun e => e.2 == e.1) = g.arcs.countP Ends.isLoop := by
    simp [arcs, List.countP_map, Function.comp_def, Ends.isLoop, BEq.comm]
  unfold doubledCount
  cases d with
  | directed =>
    have hitems : g.edges.items.length = g.listed.length := by simp [edges, listedEdges]
    simp [hitems]
    omega
  | undirected =>
    have hd := distinct_flatMap_directions h
    have hc := elem_flatMap_directions h
    have hall : (g.edges.items.flatMap directions).length = g.arcs.length := hd.length_eq g.distinct_arcs hc
    have hloop : (g.edges.items.flatMap directions).countP Ends.isLoop = g.arcs.countP Ends.isLoop := by
      rw [List.countP_eq_length_filter, List.countP_eq_length_filter]
      refine (hd.filter _).length_eq (g.distinct_arcs.filter _) fun q => ?_
      rw [elem_filter _ Ends.isLoop_congr, elem_filter _ Ends.isLoop_congr, hc]
    have htwo := length_flatMap_directions g.edges.items
    simp only [EdgeKind.isDirected_undirected, Bool.false_or, hloops]
    omega

end

/-! ## The check -/

theorem successorFault?_eq_none_iff (g : Graph ν d) (x y : ν) : g.successorFault? x y = none ↔ g.hasBackEdge x y := by
  unfold successorFault? hasBackEdge
  cases g.records.find? y <;> simp

theorem predecessorFault?_eq_none_iff (g : Graph ν d) (x y : ν) : g.predecessorFault? x y = none ↔ g.hasEdge y x := by
  unfold predecessorFault? hasEdge
  cases g.records.find? y <;> simp

theorem recordFault?_eq_none_iff (g : Graph ν d) (x : ν) (c : Neighborhood ν d) :
    g.recordFault? x c = none ↔ (∀ y ∈ c.successors.items, g.hasBackEdge x y) ∧
      (∀ y ∈ c.predecessors.items, g.hasEdge y x) ∧ (g.selfLoops = false → c.successors.contains x = false) := by
  simp only [recordFault?, Option.or_eq_none_iff, List.findSome?_eq_none_iff, successorFault?_eq_none_iff,
    predecessorFault?_eq_none_iff]
  cases g.selfLoops <;> cases c.successors.contains x <;> simp

section
variable [EquivBEq ν]

/-- No record is at fault if and only if every edge is noted at both of its ends and there is no self-loop against
the policy. -/
theorem recordFaults_iff (g : Graph ν d) :
    (∀ e ∈ g.records.entries, g.recordFault? e.1 e.2 = none) ↔
      (∀ u v, g.hasBackEdge u v = g.hasEdge u v) ∧ (g.selfLoops = false → ∀ u, g.hasEdge u u = false) := by
  simp only [recordFault?_eq_none_iff]
  constructor
  · intro h
    refine ⟨fun u v => ?_, fun hp u => ?_⟩
    · rw [Bool.eq_iff_iff]
      constructor
      · intro hb
        obtain ⟨e, he, hve, hc⟩ := (g.hasBackEdge_iff_entry u v).1 hb
        obtain ⟨y, hy, huy⟩ := (e.2.predecessors.contains_iff_exists u).1 hc
        rw [g.hasEdge_congr huy hve]
        exact (h e he).2.1 y hy
      · intro hf
        obtain ⟨e, he, hue, hc⟩ := (g.hasEdge_iff_entry u v).1 hf
        obtain ⟨y, hy, hvy⟩ := (e.2.successors.contains_iff_exists v).1 hc
        rw [g.hasBackEdge_congr hue hvy]
        exact (h e he).1 y hy
    · rw [Bool.eq_false_iff]
      intro hf
      obtain ⟨e, he, hue, hc⟩ := (g.hasEdge_iff_entry u u).1 hf
      rw [e.2.successors.contains_congr hue, (h e he).2.2 hp] at hc
      cases hc
  · rintro ⟨hr, hl⟩ e he
    refine ⟨fun y hy => ?_, fun y hy => ?_, fun hp => ?_⟩
    · rw [hr]
      exact (g.hasEdge_iff_entry e.1 y).2 ⟨e, he, BEq.rfl, e.2.successors.contains_of_mem hy⟩
    · rw [← hr]
      exact (g.hasBackEdge_iff_entry y e.1).2 ⟨e, he, BEq.rfl, e.2.predecessors.contains_of_mem hy⟩
    · rw [Bool.eq_false_iff]
      intro hc
      have hf := (g.hasEdge_iff_entry e.1 e.1).2 ⟨e, he, BEq.rfl, hc⟩
      rw [hl hp] at hf
      cases hf

theorem check_eq_ok_iff (g : Graph ν d) : g.check = .ok () ↔ g.Sound := by
  have hfault : g.check = .ok () ↔ g.fault? = none := by
    unfold check
    cases g.fault? <;> simp
  have hcount : (if g.doubledCount / 2 == g.edgeCount then none else some Inconsistency.wrongEdgeCount) = none ↔
      g.doubledCount / 2 = g.edgeCount := by
    simp
  rw [hfault, fault?, Option.or_eq_none_iff, List.findSome?_eq_none_iff, recordFaults_iff, hcount]
  -- The records come first: only where they agree does the scan count every edge twice.
  constructor
  · rintro ⟨⟨hr, hl⟩, hn⟩
    rw [doubledCount_eq hr, Nat.mul_div_cancel_left _ (by omega)] at hn
    exact ⟨hr, hl, hn ▸ .of_distinct g.distinct_edges (elem_edges hr)⟩
  · intro hg
    refine ⟨⟨hg.returned, hg.loopless⟩, ?_⟩
    rw [doubledCount_eq hg.returned, Nat.mul_div_cancel_left _ (by omega)]
    exact hg.lawful_edges.size_eq.symm

end

end Graph

end GraphViews
