/-!
# Sets of items

A set keeps its items in a list without equal items. Equality is the items' `==`, which may hold between
items that are written differently: adding an item equal to a present one leaves the present one as it
is written. The order of the list means nothing.
-/

namespace GraphViews

/-- No two items of the list are equal. -/
def Distinct {α : Type} [BEq α] (xs : List α) : Prop := xs.Pairwise fun x y => (x == y) = false

theorem Distinct.nil {α : Type} [BEq α] : Distinct ([] : List α) := List.Pairwise.nil

theorem Distinct.filter {α : Type} [BEq α] {xs : List α} (h : Distinct xs) (p : α → Bool) :
    Distinct (xs.filter p) := List.Pairwise.filter p h

theorem Distinct.cons {α : Type} [BEq α] {x : α} {xs : List α} (h : Distinct xs)
    (hx : xs.contains x = false) : Distinct (x :: xs) := by
  refine List.Pairwise.cons (fun y hy => ?_) h
  rw [List.contains_eq_any_beq, List.any_eq_false] at hx
  simpa using hx y hy

/-- A set of items of type `α`. -/
structure ItemSet (α : Type) [BEq α] where
  items : List α
  distinct : Distinct items

namespace ItemSet

variable {α : Type} [BEq α]

/-- The set without items. -/
def empty : ItemSet α := ⟨[], .nil⟩

/-- Whether some item equals `x`. -/
def contains (s : ItemSet α) (x : α) : Bool := s.items.contains x

/-- The number of items. -/
def size (s : ItemSet α) : Nat := s.items.length

/-! ## Changes to one item -/

/-- The set with `x` added, or the set as it is if it holds an item equal to `x`. -/
def insert (s : ItemSet α) (x : α) : ItemSet α :=
  if h : s.contains x then s else ⟨x :: s.items, s.distinct.cons (by simpa [contains] using h)⟩

/-- The set without the item equal to `x`. -/
def erase (s : ItemSet α) (x : α) : ItemSet α :=
  ⟨s.items.filter fun y => !(x == y), s.distinct.filter _⟩

/-- Adds `x` and tells whether that changed the set. -/
def add (s : ItemSet α) (x : α) : Bool × ItemSet α := (!s.contains x, s.insert x)

/-- Removes the item equal to `x` and tells whether there was one. -/
def remove (s : ItemSet α) (x : α) : Bool × ItemSet α := (s.contains x, s.erase x)

/-! ## Changes to many items -/

/-- Adds the items one by one and tells whether any of them changed the set. -/
def addAll (s : ItemSet α) (xs : List α) : Bool × ItemSet α :=
  xs.foldl (fun r x => let (changed, s) := r.2.add x; (changed || r.1, s)) (false, s)

/-- Removes the items one by one and tells whether any of them changed the set. -/
def removeAll (s : ItemSet α) (xs : List α) : Bool × ItemSet α :=
  xs.foldl (fun r x => let (changed, s) := r.2.remove x; (changed || r.1, s)) (false, s)

/-- The set with the items inserted from the first to the last. -/
def extend (s : ItemSet α) (xs : List α) : ItemSet α := xs.foldl insert s

/-- The set of the items of a list; of equal items the first stays. -/
def ofList (xs : List α) : ItemSet α := empty.extend xs

end ItemSet

end GraphViews
