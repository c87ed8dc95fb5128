import GraphViews.Ends
/-!
# Nodes built from pairs

A node is an atom or a pair of ends that are nodes themselves, to any depth. Two nodes are equal when
one becomes the other by swapping the ends of unordered pairs inside it, so equal nodes can be written
in several ways.

`Node.pair_beq` says that a pair used as a node is compared as a pair, and `EquivBEq (Node β)` that this
is an equivalence whenever the atoms' equality is.
-/

namespace GraphViews

/-- A node over the atoms `β`. -/
inductive Node (β : Type) where
  | atom (a : β)
  | pair (p : Ends (Node β))

namespace Node

variable {β : Type}

/-- To show something of all nodes, show it of atoms and of pairs of both kinds. -/
@[induction_eliminator]
theorem induct {motive : Node β → Prop} (atom : ∀ a, motive (.atom a))
    (ordered : ∀ s t, motive s → motive t → motive (.pair (.ordered s t)))
    (unordered : ∀ u v, motive u → motive v → motive (.pair (.unordered u v))) : ∀ x, motive x
  | .atom a => atom a
  | .pair (.ordered s t) =>
    ordered s t (induct atom ordered unordered s) (induct atom ordered unordered t)
  | .pair (.unordered u v) =>
    unordered u v (induct atom ordered unordered u) (induct atom ordered unordered v)

/-! ## Equality -/

/-- Equality up to swapping the ends of unordered pairs, at any depth. -/
def same [BEq β] : Node β → Node β → Bool
  | .atom a, .atom b => a == b
  | .pair (.ordered s t), .pair (.ordered s' t') => same s s' && same t t'
  | .pair (.unordered u v), .pair (.unordered u' v') =>
    (same u u' && same v v') || (same u v' && same v u')
  | _, _ => false
termination_by structural x => x

instance [BEq β] : BEq (Node β) := ⟨same⟩

@[simp] theorem atom_beq [BEq β] (a b : β) : (atom a == atom b) = (a == b) := rfl

@[simp] theorem pair_beq [BEq β] (p q : Ends (Node β)) : (pair p == pair q) = (p == q) := by
  cases p <;> cases q <;> rfl

@[simp] theorem atom_beq_pair [BEq β] (a : β) (p : Ends (Node β)) : (atom a == pair p) = false := rfl

@[simp] theorem pair_beq_atom [BEq β] (p : Ends (Node β)) (a : β) : (pair p == atom a) = false := by
  cases p <;> rfl

theorem beq_refl [BEq β] [ReflBEq β] (x : Node β) : (x == x) = true := by
  induction x with
  | atom a => simp
  | ordered s t hs ht => simp [Ends.ordered_beq, hs, ht]
  | unordered u v hu hv => simp [Ends.unordered_beq, hu, hv]

theorem beq_symm [BEq β] [PartialEquivBEq β] (x y : Node β) (h : x == y) : y == x := by
  induction x generalizing y with
  | atom a =>
    cases y with
    | atom b => exact BEq.symm (α := β) h
    | pair q => simp at h
  | ordered s t hs ht =>
    rcases y with b | ⟨s', t'⟩ | ⟨u', v'⟩ <;> simp_all [Ends.ordered_beq]
  | unordered u v hu hv =>
    rcases y with b | ⟨s', t'⟩ | ⟨u', v'⟩ <;> simp_all [Ends.unordered_beq]
    rcases h with h | h
    · exact .inl ⟨hu _ h.1, hv _ h.2⟩
    · exact .inr ⟨hv _ h.2, hu _ h.1⟩

theorem beq_trans [BEq β] [PartialEquivBEq β] (x y z : Node β) (h : x == y) (k : y == z) : x == z := by
  induction x generalizing y z with
  | atom a =>
    rcases y with b | q <;> rcases z with c | r <;> simp_all
    exact BEq.trans h k
  | ordered s t hs ht =>
    rcases y with b | ⟨s', t'⟩ | ⟨u', v'⟩ <;> rcases z with c | ⟨s'', t''⟩ | ⟨u'', v''⟩ <;>
      simp_all [Ends.ordered_beq]
    exact ⟨hs _ _ h.1 k.1, ht _ _ h.2 k.2⟩
  | unordered u v hu hv =>
    rcases y with b | ⟨s', t'⟩ | ⟨u', v'⟩ <;> rcases z with c | ⟨s'', t''⟩ | ⟨u'', v''⟩ <;>
      simp_all [Ends.unordered_beq]
    rcases h with h | h <;> rcases k with k | k
    · exact .inl ⟨hu _ _ h.1 k.1, hv _ _ h.2 k.2⟩
    · exact .inr ⟨hu _ _ h.1 k.1, hv _ _ h.2 k.2⟩
    · exact .inr ⟨hu _ _ h.1 k.2, hv _ _ h.2 k.1⟩
    · exact .inl ⟨hu _ _ h.1 k.2, hv _ _ h.2 k.1⟩

instance [BEq β] [EquivBEq β] : EquivBEq (Node β) where
  rfl := beq_refl _
  symm := beq_symm _ _
  trans := beq_trans _ _ _

/-! ## Texts and hashing -/

/-- A node's text, given the text of its atoms. -/
def text (write : β → String) : Node β → String
  | .atom a => write a
  | .pair (.ordered s t) => "<" ++ text write s ++ " -> " ++ text write t ++ ">"
  | .pair (.unordered u v) => "[" ++ text write u ++ ", " ++ text write v ++ "]"

/-- A pair used as a node is written as a pair. -/
theorem text_pair (write : β → String) (p : Ends (Node β)) :
    text write (.pair p) = p.text (text write) := by
  cases p <;> rfl

instance [Written β] : Written (Node β) := ⟨text Written.plain, text Written.quoted⟩

/-- What a node feeds to a hash, given what its atoms feed. -/
def feed (condense : List Chunk → UInt64) (feedAtom : β → List Chunk) : Node β → List Chunk
  | .atom a => feedAtom a
  | .pair (.ordered s t) => .flag true :: (feed condense feedAtom s ++ feed condense feedAtom t)
  | .pair (.unordered u v) =>
    [.flag false, .word (condense (feed condense feedAtom u) + condense (feed condense feedAtom v))]

/-- A pair used as a node feeds what a pair feeds. -/
theorem feed_pair (condense : List Chunk → UInt64) (feedAtom : β → List Chunk) (p : Ends (Node β)) :
    feed condense feedAtom (.pair p) = p.feed condense (feed condense feedAtom) := by
  cases p <;> rfl

end Node

end GraphViews
