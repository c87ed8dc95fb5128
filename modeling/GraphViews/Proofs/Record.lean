import GraphViews.Neighborhood.Lemmas
import GraphViews.Proofs.Lawful
import GraphViews.Proofs.Pairs
/-!
# The record of a node on its own

The edges at a node are told in three ways: listed, counted by a formula and looked up. Listing and counting
agree for every record. Looking up agrees with them too (`elem_incident`), except in a record that lists its own
node as a successor without listing it as a predecessor: there it finds one edge more (`hasIncident_eq_listed`).
-/

namespace GraphViews.Neighborhood

variable {ν : Type} [BEq ν] {d : EdgeKind}

/-- The record with `x` struck out on both sides. -/
def without (c : Neighborhood ν d) (x : ν) : Neighborhood ν d :=
  match c with
  | shared neighbors => shared (neighbors.erase x)
  | split predecessors successors => split (predecessors.erase x) (successors.erase x)

@[simp] theorem predecessors_without (c : Neighborhood ν d) (x : ν) :
    (c.without x).predecessors = c.predecessors.erase x := by
  cases c <;> rfl

@[simp] theorem successors_without (c : Neighborhood ν d) (x : ν) :
    (c.without x).successors = c.successors.erase x := by
  cases c <;> rfl

/-- Striking `x` out only where it is listed is striking it out everywhere. -/
theorem strike_eq_without (r : Neighborhood ν d) (x : ν) :
    (let r' := if r.predecessors.contains x then r.erasePredecessor x else r
      if d.isDirected && r.successors.contains x then r'.eraseSuccessor x else r') = r.without x := by
  have he : ∀ s : ItemSet ν, (if s.contains x then s.erase x else s) = s.erase x := by
    intro s
    cases h : s.contains x with
    | true => rfl
    | false => simp [ItemSet.erase_of_not_contains h]
  cases r with
  | shared neighbors =>
    rw [without, ← he]
    by_cases h : neighbors.contains x <;> simp [EdgeKind.isDirected, predecessors, erasePredecessor, h]
  | split p s =>
    rw [without, ← he p, ← he s]
    by_cases hp : p.contains x <;> by_cases hs : s.contains x <;>
      simp [EdgeKind.isDirected, predecessors, successors, erasePredecessor, eraseSuccessor, hp, hs]

/-- The neighbors on each side, as a set that a graph hands out, are lawful. -/
theorem lawful_adjacent [EquivBEq ν] (c : Neighborhood ν d) : c.adjacent.Lawful := by
  cases c with
  | shared neighbors => exact neighbors.lawful_reading
  | split predecessors successors => exact predecessors.lawful_reading.union successors.lawful_reading

/-! ## The edges at a node -/

/-- Whether the record lists `x`, whose record it is, as a successor and not as a predecessor. -/
def isLopsided (c : Neighborhood ν d) (x : ν) : Bool := c.successors.contains x && !c.predecessors.contains x

theorem isLopsided_undirected (c : Neighborhood ν .undirected) (x : ν) : c.isLopsided x = false := by
  rw [isLopsided, c.predecessors_eq_successors, Bool.and_not_self]

theorem elem_map_ordered_left (xs : List ν) (x : ν) (p : Ends ν) :
    (xs.map (Ends.ordered · x)).contains p = (p.isOrdered && p.snd == x && xs.contains p.fst) := by
  rw [Bool.eq_iff_iff, elem_map]
  cases p with
  | ordered s t =>
    simp only [Ends.ordered_beq, Ends.isOrdered, Ends.fst, Ends.snd, Bool.and_eq_true, elem_iff]
    constructor
    · rintro ⟨y, hy, h, k⟩
      exact ⟨⟨trivial, k⟩, y, hy, h⟩
    · rintro ⟨⟨-, k⟩, y, hy, h⟩
      exact ⟨y, hy, h, k⟩
  | unordered u v => simp [Ends.isOrdered]

theorem elem_map_ordered_right (xs : List ν) (x : ν) (p : Ends ν) :
    (xs.map (Ends.ordered x ·)).contains p = (p.isOrdered && p.fst == x && xs.contains p.snd) := by
  rw [Bool.eq_iff_iff, elem_map]
  cases p with
  | ordered s t =>
    simp only [Ends.ordered_beq, Ends.isOrdered, Ends.fst, Ends.snd, Bool.and_eq_true, elem_iff]
    constructor
    · rintro ⟨y, hy, h, k⟩
      exact ⟨⟨trivial, h⟩, y, hy, k⟩
    · rintro ⟨⟨-, h⟩, y, hy, k⟩
      exact ⟨y, hy, h, k⟩
  | unordered u v => simp [Ends.isOrdered]

theorem elem_map_unordered (xs : List ν) (x : ν) (p : Ends ν) :
    (xs.map (Ends.unordered x ·)).contains p =
      (!p.isOrdered && ((p.fst == x && xs.contains p.snd) || (p.snd == x && xs.contains p.fst))) := by
  rw [Bool.eq_iff_iff, elem_map]
  cases p with
  | ordered s t => simp [Ends.isOrdered]
  | unordered u v =>
    simp only [Ends.unordered_beq, Ends.isOrdered, Ends.fst, Ends.snd, Bool.or_eq_true, Bool.and_eq_true, elem_iff]
    constructor
    · rintro ⟨y, hy, ⟨h, k⟩ | ⟨h, k⟩⟩
      · exact ⟨rfl, .inl ⟨h, y, hy, k⟩⟩
      · exact ⟨rfl, .inr ⟨k, y, hy, h⟩⟩
    · rintro ⟨-, ⟨h, y, hy, k⟩ | ⟨k, y, hy, h⟩⟩
      · exact ⟨y, hy, .inl ⟨h, k⟩⟩
      · exact ⟨y, hy, .inr ⟨h, k⟩⟩

section
variable [EquivBEq ν]

/-- The formula for the number of edges counts the listed ones, in one-sided records too. -/
theorem length_incident (c : Neighborhood ν d) (x : ν) : (c.incident x).length = c.degree x := by
  cases c with
  | shared neighbors => simp [incident, degree, ItemSet.size]
  | split predecessors successors =>
    have he : (successors.items.filter fun y => !(x == y)).length =
        successors.size - if successors.contains x then 1 else 0 := successors.size_erase x
    simp only [incident, degree, List.length_append, List.length_map, he]
    have hp : predecessors.items.length = predecessors.size := rfl
    split
    · have := ItemSet.size_pos_of_contains ‹_›
      omega
    · omega

theorem distinct_incident (c : Neighborhood ν d) (x : ν) : Distinct (c.incident x) := by
  cases c with
  | shared neighbors =>
    refine List.pairwise_map.2 (neighbors.distinct.imp fun {a b} hab => ?_)
    rw [Ends.unordered_beq, hab, BEq.rfl, Bool.and_false, Bool.false_or, Bool.and_eq_false_iff]
    -- A swapped match would make both neighbors equal to `x`.
    by_cases hb : x == b
    · right
      rw [Bool.eq_false_iff]
      intro ha
      rw [BEq.trans ha hb] at hab
      cases hab
    · left
      simpa using hb
  | split predecessors successors =>
    refine List.pairwise_append.2 ⟨?_, ?_, ?_⟩
    · refine List.pairwise_map.2 (predecessors.distinct.imp fun {a b} hab => ?_)
      rw [Ends.ordered_beq, hab, Bool.false_and]
    · refine List.pairwise_map.2 ((successors.distinct.filter _).imp fun {a b} hab => ?_)
      rw [Ends.ordered_beq, hab, Bool.and_false]
    · intro p hp q hq
      obtain ⟨a, -, rfl⟩ := List.mem_map.1 hp
      obtain ⟨b, hb, rfl⟩ := List.mem_map.1 hq
      have hxb : (x == b) = false := by simpa using (List.mem_filter.1 hb).2
      rw [Ends.ordered_beq, hxb, Bool.and_false]

/-- An edge is found at `x` as an edge out of `x` or as an edge into `x`. In an undirected record it does not
matter as which. -/
theorem hasIncident_eq (c : Neighborhood ν d) (x : ν) (p : Ends ν) :
    c.hasIncident x p = (d.admits p &&
      ((p.fst == x && c.successors.contains p.snd) || (p.snd == x && c.predecessors.contains p.fst))) := by
  cases c with
  | split predecessors successors => simp [hasIncident, EdgeKind.admits, EdgeKind.isDirected, Neighborhood.successors,
      Neighborhood.predecessors]
  | shared neighbors =>
    simp only [hasIncident, Ends.opposite?, EdgeKind.admits, EdgeKind.isDirected, successors, predecessors,
      beq_false]
    by_cases hf : x == p.fst
    · have hf' : p.fst == x := BEq.symm hf
      by_cases hs : p.snd == x
      · -- A self-loop: both ends are `x`, so it does not matter which one answers.
        have : neighbors.contains p.snd = neighbors.contains p.fst := neighbors.contains_congr (BEq.trans hs hf)
        simp [hf, hf', hs, this]
      · simp [hf, hf', hs]
    · have hf' : (p.fst == x) = false := by
        rw [BEq.comm]
        simpa using hf
      rw [BEq.comm (a := p.snd)]
      by_cases hs : x == p.snd <;> simp [hf, hf', hs]

/-- Which edges are listed: those found by looking up, except a self-loop that only the successors show. -/
theorem elem_incident (c : Neighborhood ν d) (x : ν) (p : Ends ν) :
    (c.incident x).contains p =
      (c.hasIncident x p && (!(p.fst == x && p.snd == x) || c.predecessors.contains x)) := by
  rw [hasIncident_eq]
  cases c with
  | shared neighbors =>
    simp only [incident, elem_map_unordered, EdgeKind.admits, EdgeKind.isDirected, successors, predecessors,
      ItemSet.contains, beq_false]
    by_cases hf : p.fst == x <;> by_cases hs : p.snd == x <;> simp [hf, hs]
    -- A self-loop is found if and only if `x` is its own neighbor.
    rw [elem_congr _ hf, elem_congr _ hs]
    simp
  | split predecessors successors =>
    have hrest : (successors.items.filter fun y => !(x == y)).contains p.snd =
        (successors.contains p.snd && !(p.snd == x)) := by
      rw [elem_filter _ fun e => by rw [BEq.congr_right e], BEq.comm]
      rfl
    have hpred : predecessors.items.contains p.fst = predecessors.contains p.fst := rfl
    simp only [incident, List.contains_append, elem_map_ordered_left, elem_map_ordered_right, hrest, hpred,
      EdgeKind.admits, EdgeKind.isDirected, Neighborhood.successors, Neighborhood.predecessors, beq_true]
    by_cases hf : p.fst == x <;> by_cases hs : p.snd == x <;> simp [hf, hs]
    · rw [predecessors.contains_congr hf]
      cases predecessors.contains x <;> simp

/-! ### The one exception -/

/-- The self-loop at `x` is found if `x` is listed on either side. -/
theorem hasIncident_loop (c : Neighborhood ν d) {x : ν} {p : Ends ν} (hf : p.fst == x) (hs : p.snd == x) :
    c.hasIncident x p = (d.admits p && (c.successors.contains x || c.predecessors.contains x)) := by
  rw [hasIncident_eq, c.successors.contains_congr hs, c.predecessors.contains_congr hf, hf, hs, Bool.true_and,
    Bool.true_and]

/-- What is found is what is listed, but for the self-loop in a lopsided record. -/
theorem hasIncident_eq_listed (c : Neighborhood ν d) (x : ν) (p : Ends ν) :
    c.hasIncident x p = ((c.incident x).contains p || (c.isLopsided x && p == d.edge x x)) := by
  rw [elem_incident, d.beq_edge_self]
  by_cases hf : p.fst == x <;> by_cases hs : p.snd == x <;> simp [hf, hs]
  rw [c.hasIncident_loop hf hs, isLopsided]
  cases d.admits p <;> cases c.successors.contains x <;> cases c.predecessors.contains x <;> rfl

/-- The self-loop in a lopsided record is not listed. -/
theorem elem_incident_lopsided {c : Neighborhood ν d} {x : ν} (h : c.isLopsided x) {p : Ends ν}
    (hp : p == d.edge x x) : (c.incident x).contains p = false := by
  rw [d.beq_edge_self, Bool.and_eq_true, Bool.and_eq_true] at hp
  rw [isLopsided, Bool.and_eq_true, Bool.not_eq_true'] at h
  simp [elem_incident, hp.2, h.2]

theorem hasCount_hasIncident (c : Neighborhood ν d) (x : ν) :
    HasCount (c.hasIncident x) (c.degree x + if c.isLopsided x then 1 else 0) := by
  have hlisted : HasCount (c.incident x).contains (c.degree x) := by
    rw [← length_incident]
    exact .of_distinct (c.distinct_incident x) fun _ => rfl
  cases hl : c.isLopsided x with
  | false => exact hlisted.congr fun p => by simp [hasIncident_eq_listed, hl]
  | true =>
    refine (hlisted.or (.single (d.edge x x)) fun p hp => ?_).congr fun p => ?_
    · -- What is listed is not the self-loop.
      rw [Bool.eq_false_iff]
      intro hloop
      rw [elem_incident_lopsided hl (BEq.symm hloop)] at hp
      cases hp
    · rw [hasIncident_eq_listed, hl, Bool.true_and, BEq.comm (a := p)]

/-- A record that is not lopsided lists the edges that it finds. -/
theorem elem_incident_of_loop {c : Neighborhood ν d} {x : ν}
    (h : c.successors.contains x → c.predecessors.contains x) (p : Ends ν) :
    (c.incident x).contains p = c.hasIncident x p := by
  have hl : c.isLopsided x = false := by
    rw [isLopsided]
    cases hs : c.successors.contains x <;> simp_all
  rw [hasIncident_eq_listed, hl, Bool.false_and, Bool.or_false]

end

/-! ## The whole story -/

/-- What a record tells of the edges at `x`, which it lists, counts and finds, and of the neighbors. -/
structure Tells (c : Neighborhood ν d) (x : ν) : Prop where
  distinct : Distinct (c.incident x)
  counted : (c.incident x).length = c.degree x
  undirected : d = .undirected → ∀ p, c.hasIncident x p ↔ ∃ q ∈ c.incident x, p == q
  /-- What is found is what is listed, with one exception: the self-loop at `x`, if `x` is listed among its own
  successors and not among its own predecessors. -/
  directed : d = .directed → ∀ p, (c.hasIncident x p ↔ ∃ q ∈ c.incident x, p == q) ↔
    ¬((c.successors.contains x ∧ c.predecessors.contains x = false) ∧ p == .ordered x x)
  /-- The exception is found, but neither listed nor counted: the edges that are found are one more. -/
  lopsided : d = .directed → c.successors.contains x → c.predecessors.contains x = false →
    c.hasIncident x (.ordered x x) ∧ (¬∃ q ∈ c.incident x, Ends.ordered x x == q) ∧
      HasCount (c.hasIncident x) (c.degree x + 1)
  adjacent : ∀ y, (∃ z ∈ c.adjacent.items, y == z) ↔ c.predecessors.contains y ∨ c.successors.contains y
  mem_adjacent : ∀ y, c.adjacent.contains y = (c.predecessors.contains y || c.successors.contains y)
  size_adjacent : c.adjacent.size = c.adjacent.items.length ∧
    HasCount (fun y => c.predecessors.contains y || c.successors.contains y) c.adjacent.size

/-- A record on its own, whatever was noted in it or struck out again on either side: the edges at `x` come up once
each, there are as many as the formula says, and they are the edges that are found, but for one of a directed record. -/
theorem record_tells [EquivBEq ν] (c : Neighborhood ν d) (x : ν) : c.Tells x where
  distinct := c.distinct_incident x
  counted := c.length_incident x
  undirected := by
    rintro rfl p
    rw [hasIncident_eq_listed, isLopsided_undirected, Bool.false_and, Bool.or_false, elem_iff]
  directed := by
    rintro rfl p
    rw [← elem_iff]
    have hlopsided : c.isLopsided x ↔ c.successors.contains x ∧ c.predecessors.contains x = false := by
      simp [isLopsided]
    rw [← hlopsided]
    constructor
    · rintro h ⟨hl, hp⟩
      have hfound : c.hasIncident x p := by simp [hasIncident_eq_listed, hl, EdgeKind.edge, hp]
      rw [h, elem_incident_lopsided hl hp] at hfound
      cases hfound
    · intro h
      have hnot : (c.isLopsided x && p == EdgeKind.directed.edge x x) = false := by
        rw [Bool.eq_false_iff, Ne, Bool.and_eq_true]
        exact h
      rw [hasIncident_eq_listed, hnot, Bool.or_false]
  lopsided := by
    rintro rfl hs hp
    have hl : c.isLopsided x := by simp [isLopsided, hs, hp]
    have hcount := c.hasCount_hasIncident x
    rw [if_pos hl] at hcount
    refine ⟨?_, ?_, hcount⟩
    · rw [hasIncident_eq_listed, hl]
      simp [EdgeKind.edge]
    · rw [← elem_iff, elem_incident_lopsided hl (p := .ordered x x) BEq.rfl]
      simp
  adjacent y := by
    rw [← elem_iff, ← c.lawful_adjacent.contains_eq, contains_adjacent, Bool.or_eq_true]
  mem_adjacent := c.contains_adjacent
  size_adjacent := ⟨c.lawful_adjacent.size_eq, c.lawful_adjacent.hasCount.congr fun y => (c.contains_adjacent y).symm⟩

/-- A record that lists its own node as a successor only, and a predecessor beside it. -/
theorem record_tells_lopsided :
    let c := ((empty .directed : Neighborhood Nat .directed).amend (.insertSuccessor 1)).2.insertPredecessor 2
    c.degree 1 = 1 ∧ (c.incident 1).length = 1 ∧ c.hasIncident 1 (.ordered 1 1) ∧
      (¬∃ q ∈ c.incident 1, Ends.ordered 1 1 == q) ∧ HasCount (c.hasIncident 1) 2 ∧
      (c.hasIncident 1 (.ordered 2 1) ↔ ∃ q ∈ c.incident 1, Ends.ordered 2 1 == q) := by
  intro c
  have h := c.record_tells 1
  obtain ⟨hfound, hlisted, hcount⟩ := h.lopsided rfl (by decide) (by decide)
  exact ⟨rfl, h.counted, hfound, hlisted, hcount, (h.directed rfl (.ordered 2 1)).2 (by decide)⟩

end GraphViews.Neighborhood
