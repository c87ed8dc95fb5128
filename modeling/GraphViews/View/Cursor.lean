import GraphViews.View
/-!
# Going through a view while it changes

A cursor remembers the items that the leaves had when it was made. Nothing that happens later adds an
item to it. But whether a union lets an item of its second operand through is decided when the item
comes up: it stays out if the first operand contains it at that moment. Only behind a cell is that decided
at once, because going through a cell starts with a copy of all its items.

A cursor is therefore a list of candidates, each with the views that bar it. `drain_start` says that a
cursor that is run to its end at once yields the items of the view.
-/

namespace GraphViews

/-- An item that may come up, unless one of the views contains it by then. -/
structure Candidate (ι α : Type) where
  item : α
  barredBy : List (View ι)

namespace Candidate

variable {ι α : Type}

/-- Whether the item comes up when the leaves answer `look`. -/
def admitted (look : ι → Reading α) (c : Candidate ι α) : Bool :=
  c.barredBy.all fun v => !(v.read look).contains c.item

/-- The candidate, barred by one more view. -/
def bar (v : View ι) (c : Candidate ι α) : Candidate ι α := { c with barredBy := v :: c.barredBy }

end Candidate

/-- The candidates still to come. -/
abbrev Cursor (ι α : Type) := List (Candidate ι α)

namespace Cursor

variable {ι α : Type}

/-- A cursor at the start of a view. -/
def start (look : ι → Reading α) : View ι → Cursor ι α
  | .leaf l => (look l).items.map fun x => ⟨x, []⟩
  | .held .cell v => (v.read look).items.map fun x => ⟨x, []⟩
  | .held _ v => start look v
  | .unmodifiable v => start look v
  | .union a b => start look a ++ (start look b).map (Candidate.bar a)

/-- Draws the next item that comes up; candidates that do not are dropped. -/
def next (look : ι → Reading α) : Cursor ι α → Option (α × Cursor ι α)
  | [] => none
  | c :: rest => if c.admitted look then some (c.item, rest) else next look rest

/-- Draws items until there are `n` or none is left. -/
def take (look : ι → Reading α) : Nat → Cursor ι α → List α × Cursor ι α
  | 0, cursor => ([], cursor)
  | n + 1, cursor =>
    match next look cursor with
    | none => ([], [])
    | some (x, rest) =>
      let (xs, rest) := take look n rest
      (x :: xs, rest)

/-- Draws all that is left. -/
def drain (look : ι → Reading α) (cursor : Cursor ι α) : List α :=
  (cursor.filter (Candidate.admitted look)).map (·.item)

/-- Items that nothing bars all come up. -/
theorem drain_unbarred (look : ι → Reading α) (xs : List α) : drain look (xs.map fun x => ⟨x, []⟩) = xs := by
  simp [drain, Candidate.admitted, Function.comp_def, List.filter_map]

theorem drain_append (look : ι → Reading α) (c d : Cursor ι α) :
    drain look (c ++ d) = drain look c ++ drain look d := by
  simp [drain]

theorem drain_bar (look : ι → Reading α) (v : View ι) (c : Cursor ι α) :
    drain look (c.map (Candidate.bar v)) = (drain look c).filter fun x => !(v.read look).contains x := by
  simp only [drain, List.filter_map, List.map_map, List.filter_filter]
  have h : (Candidate.admitted look ∘ Candidate.bar v) =
      fun c : Candidate ι α => !(v.read look).contains c.item && c.admitted look := by
    funext c; rfl
  rw [h]; rfl

/-- With no change in between, a cursor yields the items of the view, in their order. -/
theorem drain_start (look : ι → Reading α) (v : View ι) :
    drain look (start look v) = (v.read look).items := by
  induction v with
  | leaf l => exact drain_unbarred look _
  | held holder v ih =>
    cases holder with
    | cell => exact drain_unbarred look _
    | reference | box | handle => exact ih
  | unmodifiable v ih => exact ih
  | union a b iha ihb => rw [start, drain_append, drain_bar, iha, ihb]; rfl

end Cursor

end GraphViews
