import GraphViews.Digest
import GraphViews.Text.Written
/-!
# The ends of an edge

An ordered pair is an edge of a directed graph, from a source to a target. An unordered pair is an edge
of an undirected graph: the two nodes keep the order in which they were given, but swapping them gives
an equal pair. An ordered pair never equals an unordered one.

`beq_refl`, `beq_symm` and `beq_trans` make this equality an equivalence whenever the nodes' equality is.
-/

namespace GraphViews

/-- The two ends of an edge. The two may be equal. -/
inductive Ends (ν : Type) where
  | ordered (source target : ν)
  | unordered (u v : ν)

namespace Ends

variable {ν : Type}

/-- The end given first. -/
def fst : Ends ν → ν
  | ordered s _ => s
  | unordered u _ => u

/-- The end given second. -/
def snd : Ends ν → ν
  | ordered _ t => t
  | unordered _ v => v

/-- Whether the pair is ordered. -/
def isOrdered : Ends ν → Bool
  | ordered _ _ => true
  | unordered _ _ => false

/-- Both ends, in the order given. -/
def toProd (p : Ends ν) : ν × ν := (p.fst, p.snd)

/-- The same ends in the other order, of the same kind. -/
def swap : Ends ν → Ends ν
  | ordered s t => ordered t s
  | unordered u v => unordered v u

section
variable [BEq ν]

/-- Ordered pairs are compared end by end, unordered ones up to a swap. -/
instance : BEq (Ends ν) where
  beq
    | ordered s t, ordered s' t' => s == s' && t == t'
    | unordered u v, unordered u' v' => (u == u' && v == v') || (u == v' && v == u')
    | _, _ => false

theorem ordered_beq (s t s' t' : ν) : (ordered s t == ordered s' t') = (s == s' && t == t') := rfl

theorem unordered_beq (u v u' v' : ν) :
    (unordered u v == unordered u' v') = ((u == u' && v == v') || (u == v' && v == u')) := rfl

@[simp] theorem ordered_beq_unordered (s t u v : ν) : (ordered s t == unordered u v) = false := rfl

@[simp] theorem unordered_beq_ordered (u v s t : ν) : (unordered u v == ordered s t) = false := rfl

/-- Whether a node is one of the two ends. -/
def contains (p : Ends ν) (x : ν) : Bool := p.fst == x || p.snd == x

/-- Given one end, the other. The end given first is tried first, so the ends of a self-loop answer with
the second. -/
def opposite? (p : Ends ν) (x : ν) : Option ν :=
  if x == p.fst then some p.snd else if x == p.snd then some p.fst else none

end

/-! ## Equality is an equivalence -/

theorem beq_refl [BEq ν] [ReflBEq ν] (p : Ends ν) : (p == p) = true := by
  cases p <;> simp [ordered_beq, unordered_beq]

theorem beq_symm [BEq ν] [PartialEquivBEq ν] (p q : Ends ν) (h : p == q) : q == p := by
  cases p <;> cases q <;> simp_all [ordered_beq, unordered_beq]
  · exact ⟨BEq.symm h.1, BEq.symm h.2⟩
  · rcases h with h | h
    · exact .inl ⟨BEq.symm h.1, BEq.symm h.2⟩
    · exact .inr ⟨BEq.symm h.2, BEq.symm h.1⟩

theorem beq_trans [BEq ν] [PartialEquivBEq ν] (p q r : Ends ν) (h : p == q) (k : q == r) : p == r := by
  cases p <;> cases q <;> cases r <;> simp_all [ordered_beq, unordered_beq]
  · exact ⟨BEq.trans h.1 k.1, BEq.trans h.2 k.2⟩
  · rcases h with h | h <;> rcases k with k | k
    · exact .inl ⟨BEq.trans h.1 k.1, BEq.trans h.2 k.2⟩
    · exact .inr ⟨BEq.trans h.1 k.1, BEq.trans h.2 k.2⟩
    · exact .inr ⟨BEq.trans h.1 k.2, BEq.trans h.2 k.1⟩
    · exact .inl ⟨BEq.trans h.1 k.2, BEq.trans h.2 k.1⟩

instance [BEq ν] [EquivBEq ν] : EquivBEq (Ends ν) where
  rfl := beq_refl _
  symm := beq_symm _ _
  trans := beq_trans _ _ _

/-! ## Texts -/

/-- An arrow in angle brackets between ordered ends, a comma in square ones between unordered ends. -/
def text (write : ν → String) : Ends ν → String
  | ordered s t => "<" ++ write s ++ " -> " ++ write t ++ ">"
  | unordered u v => "[" ++ write u ++ ", " ++ write v ++ "]"

instance [Written ν] : Written (Ends ν) := ⟨text Written.plain, text Written.quoted⟩

/-! ## Hashing -/

/-- What a pair feeds to a hash: its kind, then the ends in order, or for an unordered pair the sum of
the ends' digests, which a swap does not change. -/
def feed (condense : List Chunk → UInt64) (feedNode : ν → List Chunk) : Ends ν → List Chunk
  | ordered s t => .flag true :: (feedNode s ++ feedNode t)
  | unordered u v => [.flag false, .word (condense (feedNode u) + condense (feedNode v))]

end Ends

end GraphViews
