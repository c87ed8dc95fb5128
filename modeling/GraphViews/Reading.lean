import GraphViews.ItemSet
/-!
# What a set answers

A set may be stored, computed from a graph, or combined from other sets. Whatever it is, at one moment it
answers the same four questions, and a reading is those answers. Nothing ties the four together here: that
they fit is a theorem about each kind of set.

`union` and `equal` use readings alone, so they apply to sets of any kinds.
-/

namespace GraphViews

/-- The answers of a set at one moment. -/
structure Reading (α : Type) where
  contains : α → Bool
  size : Nat
  /-- The items in the order in which they come up. -/
  items : List α
  isEmpty : Bool := size == 0

namespace Reading

variable {α : Type}

/-- The reading of a set without items. -/
def empty : Reading α := { contains := fun _ => false, size := 0, items := [] }

/-- The union: all items of `a`, then the items of `b` that `a` does not contain. -/
def union (a b : Reading α) : Reading α where
  contains x := a.contains x || b.contains x
  size := a.size + (b.items.filter fun x => !a.contains x).length
  items := a.items ++ b.items.filter fun x => !a.contains x
  isEmpty := a.isEmpty && b.isEmpty

/-- The reading of a set through a holder, which passes on three of the four questions. Whether the set is
empty, it tells by the size. -/
def held (r : Reading α) : Reading α where
  contains := r.contains
  size := r.size
  items := r.items

/-- The first items of a union, those of its first operand, and the rest. -/
def parts (a b : Reading α) : List α × List α := (a.union b).items.splitAt a.size

/-- Two sets are equal if they have the same size and the first contains every item of the second. -/
def equal (a b : Reading α) : Bool := a.size == b.size && b.items.all a.contains

/-- As `equal`, for sets that may be missing: a missing set equals a missing set only. -/
def equal? : Option (Reading α) → Option (Reading α) → Bool
  | none, none => true
  | some a, some b => a.equal b
  | _, _ => false

/-- The reading seen through an embedding of the items, where `back?` undoes the embedding. -/
def embed {γ : Type} (r : Reading α) (into : α → γ) (back? : γ → Option α) : Reading γ where
  contains y := (back? y).any r.contains
  size := r.size
  items := r.items.map into
  isEmpty := r.isEmpty

end Reading

namespace ItemSet

variable {α : Type} [BEq α]

/-- What a stored set answers. -/
def reading (s : ItemSet α) : Reading α where
  contains := s.contains
  size := s.size
  items := s.items

/-- Stored sets are equal when their readings are. -/
instance : BEq (ItemSet α) := ⟨fun a b => a.reading.equal b.reading⟩

end ItemSet

end GraphViews
