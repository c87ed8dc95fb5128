import GraphViews.ItemSet
/-!
# Changes to a set

The changes that a stored set takes, as data, so that a history of a set is a list of them.
-/

namespace GraphViews

/-- One change to a set. -/
inductive SetChange (α : Type) where
  | add (x : α)
  | remove (x : α)
  | addAll (xs : List α)
  | removeAll (xs : List α)
  | extend (xs : List α)
  | clear

namespace SetChange

/-- Whether the change adds to a set. The others remove. -/
def inserts {α : Type} : SetChange α → Bool
  | add _ | addAll _ | extend _ => true
  | remove _ | removeAll _ | clear => false

/-- The change with its items put through a partial map; nothing if it has none for one of them. -/
def mapM? {α γ : Type} (f : α → Option γ) : SetChange α → Option (SetChange γ)
  | add x => (f x).map add
  | remove x => (f x).map remove
  | addAll xs => (xs.mapM f).map addAll
  | removeAll xs => (xs.mapM f).map removeAll
  | extend xs => (xs.mapM f).map extend
  | clear => some clear

end SetChange

namespace ItemSet

variable {α : Type} [BEq α]

/-- Makes one change. The additions and removals tell whether the set changed; extending and clearing do
not. -/
def change (s : ItemSet α) : SetChange α → Option Bool × ItemSet α
  | .add x => (some (s.add x).1, (s.add x).2)
  | .remove x => (some (s.remove x).1, (s.remove x).2)
  | .addAll xs => (some (s.addAll xs).1, (s.addAll xs).2)
  | .removeAll xs => (some (s.removeAll xs).1, (s.removeAll xs).2)
  | .extend xs => (none, s.extend xs)
  | .clear => (none, empty)

end ItemSet

end GraphViews
