import GraphViews.Node.Atom
/-!
# Equal nodes hash alike

A table finds a key only if equality is an equivalence and equal keys feed the same to a hash. Nodes are compared by
a case split at every pair inside them, and hashed by a sum at every unordered pair, so both have to be shown at any
depth: `Node.beq_iff_interchangeable` says what the comparison comes to, and `Node.feed_eq_of_beq` that equal nodes
feed the same.
-/

namespace GraphViews

/-- Equal pairs feed the same, if nodes that equal one of the ends do. -/
theorem Ends.feed_eq_of_beq {ν : Type} [BEq ν] (condense : List Chunk → UInt64) {feedNode : ν → List Chunk}
    {p q : Ends ν} (hfst : ∀ y, p.fst == y → feedNode p.fst = feedNode y)
    (hsnd : ∀ y, p.snd == y → feedNode p.snd = feedNode y) (h : p == q) :
    p.feed condense feedNode = q.feed condense feedNode := by
  cases p with
  | ordered s t =>
    cases q with
    | unordered u v => cases h
    | ordered s' t' =>
      rw [ordered_beq, Bool.and_eq_true] at h
      obtain ⟨hs, ht⟩ := h
      have hs' : feedNode s = feedNode s' := hfst s' hs
      have ht' : feedNode t = feedNode t' := hsnd t' ht
      rw [feed, feed, hs', ht']
  | unordered u v =>
    cases q with
    | ordered s t => cases h
    | unordered u' v' =>
      rw [unordered_beq, Bool.or_eq_true, Bool.and_eq_true, Bool.and_eq_true] at h
      rcases h with ⟨hu, hv⟩ | ⟨hu, hv⟩
      · have hu' : feedNode u = feedNode u' := hfst u' hu
        have hv' : feedNode v = feedNode v' := hsnd v' hv
        rw [feed, feed, hu', hv']
      · -- Swapped: the same two digests, added in the other order.
        have hu' : feedNode u = feedNode v' := hfst v' hu
        have hv' : feedNode v = feedNode u' := hsnd u' hv
        rw [feed, feed, hu', hv', UInt64.add_comm]

namespace Node

variable {β : Type} [BEq β]

/-- The congruence that swapping generates: the least equivalence of nodes that makes equal atoms interchangeable and
an unordered pair interchangeable with its swap, and that goes through pairs of both kinds. -/
inductive Interchangeable : Node β → Node β → Prop
  | atom {a b : β} (h : a == b) : Interchangeable (.atom a) (.atom b)
  | swap (u v : Node β) : Interchangeable (.pair (.unordered u v)) (.pair (.unordered v u))
  | ordered {s t s' t' : Node β} (hs : Interchangeable s s') (ht : Interchangeable t t') :
    Interchangeable (.pair (.ordered s t)) (.pair (.ordered s' t'))
  | unordered {u v u' v' : Node β} (hu : Interchangeable u u') (hv : Interchangeable v v') :
    Interchangeable (.pair (.unordered u v)) (.pair (.unordered u' v'))
  | refl (x : Node β) : Interchangeable x x
  | symm {x y : Node β} (h : Interchangeable x y) : Interchangeable y x
  | trans {x y z : Node β} (h : Interchangeable x y) (k : Interchangeable y z) : Interchangeable x z

theorem Interchangeable.of_beq {x y : Node β} (h : x == y) : Interchangeable x y := by
  induction x generalizing y with
  | atom a =>
    cases y with
    | atom b => exact .atom h
    | pair q => cases h
  | ordered s t hs ht =>
    rcases y with b | ⟨s', t'⟩ | ⟨u', v'⟩
    · cases h
    · rw [pair_beq, Ends.ordered_beq, Bool.and_eq_true] at h
      exact .ordered (hs h.1) (ht h.2)
    · cases h
  | unordered u v hu hv =>
    rcases y with b | ⟨s', t'⟩ | ⟨u', v'⟩
    · cases h
    · cases h
    · rw [pair_beq, Ends.unordered_beq, Bool.or_eq_true, Bool.and_eq_true, Bool.and_eq_true] at h
      rcases h with h | h
      · exact .unordered (hu h.1) (hv h.2)
      · exact .trans (.unordered (hu h.1) (hv h.2)) (.swap v' u')

theorem Interchangeable.beq [EquivBEq β] {x y : Node β} (h : Interchangeable x y) : x == y := by
  induction h with
  | atom h => exact h
  | swap u v => simp [Ends.unordered_beq]
  | ordered _ _ hs ht => simp [Ends.ordered_beq, hs, ht]
  | unordered _ _ hu hv => simp [Ends.unordered_beq, hu, hv]
  | refl x => exact BEq.rfl
  | symm _ h => exact BEq.symm h
  | trans _ _ h k => exact BEq.trans h k

/-- Comparing nodes decides whether swaps inside one of them make it the other, up to equal atoms. -/
theorem beq_iff_interchangeable [EquivBEq β] (x y : Node β) : x == y ↔ Interchangeable x y :=
  ⟨Interchangeable.of_beq, Interchangeable.beq⟩

/-- Equal nodes feed the same to a hash, however deep the difference between them is. -/
theorem feed_eq_of_beq (condense : List Chunk → UInt64) {feedAtom : β → List Chunk}
    (hatom : ∀ a b, a == b → feedAtom a = feedAtom b) {x y : Node β} (h : x == y) :
    x.feed condense feedAtom = y.feed condense feedAtom := by
  induction x generalizing y with
  | atom a =>
    cases y with
    | atom b => exact hatom a b h
    | pair q => cases h
  | ordered s t hs ht | unordered s t hs ht =>
    cases y with
    | atom b => cases h
    | pair q =>
      rw [pair_beq] at h
      rw [feed_pair, feed_pair]
      exact Ends.feed_eq_of_beq condense (fun _ => hs) (fun _ => ht) h

/-- What a table needs of its keys, for all nodes over the atoms: how they are compared and what they feed to a hash,
where `condense` makes a word of what an end of an unordered pair feeds. -/
structure HashesLawfully (condense : List Chunk → UInt64) (feedAtom : β → List Chunk) : Prop where
  refl : ∀ x : Node β, x == x
  symm : ∀ x y : Node β, x == y → y == x
  trans : ∀ x y z : Node β, x == y → y == z → x == z
  interchangeable : ∀ x y : Node β, x == y ↔ Interchangeable x y
  kinds : ∀ s t u v : Node β, (pair (.ordered s t) == pair (.unordered u v)) = false ∧
    (pair (.unordered u v) == pair (.ordered s t)) = false
  ordered : ∀ s t s' t' : Node β, pair (.ordered s t) == pair (.ordered s' t') ↔ s == s' ∧ t == t'
  unordered : ∀ u v u' v' : Node β, pair (.unordered u v) == pair (.unordered u' v') ↔
    (u == u' ∧ v == v') ∨ (u == v' ∧ v == u')
  /-- A pair is compared and hashed in the same way as the end of an edge and as the edge itself. -/
  pairs : ∀ p q : Ends (Node β), (pair p == pair q) = (p == q) ∧
    (pair p).feed condense feedAtom = p.feed condense (feed condense feedAtom)
  feed : ∀ x y : Node β, x == y → x.feed condense feedAtom = y.feed condense feedAtom
  hash : ∀ (x y : Node β) (hasher : List Chunk → UInt64), x == y →
    hasher (x.feed condense feedAtom) = hasher (y.feed condense feedAtom)

/-- If the atoms are compared by an equivalence and equal atoms feed the same to a hash, then so it is with all nodes
built from them, and two nodes are equal exactly if swaps inside one of them make it the other. -/
theorem equality_agrees_with_hash [EquivBEq β] (condense : List Chunk → UInt64) {feedAtom : β → List Chunk}
    (hatom : ∀ a b, a == b → feedAtom a = feedAtom b) : HashesLawfully condense feedAtom where
  refl _ := BEq.rfl
  symm _ _ := BEq.symm
  trans _ _ _ := BEq.trans
  interchangeable := beq_iff_interchangeable
  kinds _ _ _ _ := ⟨rfl, rfl⟩
  ordered s t s' t' := by rw [pair_beq, Ends.ordered_beq, Bool.and_eq_true]
  unordered u v u' v' := by
    rw [pair_beq, Ends.unordered_beq, Bool.or_eq_true, Bool.and_eq_true, Bool.and_eq_true]
  pairs p q := ⟨pair_beq p q, feed_pair condense feedAtom p⟩
  feed _ _ := feed_eq_of_beq condense hatom
  hash _ _ hasher h := congrArg hasher (feed_eq_of_beq condense hatom h)

/-- Atoms that are nodes themselves, so that equal ones can be written in two ways; the pair over them is turned around
at three depths. -/
theorem equality_agrees_with_hash_nested :
    let a : Node Atom := .pair (.unordered (.atom (.integer 1)) (.atom (.string "1")))
    let a' : Node Atom := .pair (.unordered (.atom (.string "1")) (.atom (.integer 1)))
    let b : Node Atom := .atom (.integer 3)
    let x : Node (Node Atom) :=
      .pair (.unordered (.pair (.ordered (.atom b) (.pair (.unordered (.atom a) (.atom b))))) (.atom a))
    let y : Node (Node Atom) :=
      .pair (.unordered (.atom a') (.pair (.ordered (.atom b) (.pair (.unordered (.atom b) (.atom a'))))))
    (∀ c c' : Node Atom, c == c' → c.feed digest Atom.feed = c'.feed digest Atom.feed) ∧ x == y ∧
      x.feed digest (feed digest Atom.feed) = y.feed digest (feed digest Atom.feed) ∧ Interchangeable x y := by
  intro a a' b x y
  have hatom : ∀ c c' : Atom, c == c' → c.feed = c'.feed := fun c c' h => congrArg Atom.feed (eq_of_beq h)
  have hnode : ∀ c c' : Node Atom, c == c' → c.feed digest Atom.feed = c'.feed digest Atom.feed :=
    (equality_agrees_with_hash digest hatom).feed
  have hxy : x == y := by decide
  have hlawful := equality_agrees_with_hash digest hnode
  exact ⟨hnode, hxy, hlawful.feed x y hxy, (hlawful.interchangeable x y).1 hxy⟩

end Node

end GraphViews
