import GraphViews.Reading
/-!
# Combined sets

A view is a tree over leaves, each leaf a set that lives elsewhere. A view holds no items of its own: it
is read against whatever its leaves answer at the moment, so it follows every change of theirs.
-/

namespace GraphViews

/-- What a view may hold another view by. -/
inductive Holder where
  | reference
  | box
  /-- One of several handles to the same set. -/
  | handle
  /-- A cell, whose content may be changed while it is held. -/
  | cell
  deriving DecidableEq

/-- A set combined from the sets that the leaves `ι` name. -/
inductive View (ι : Type) where
  | leaf (l : ι)
  /-- The same set, behind a holder. -/
  | held (holder : Holder) (v : View ι)
  /-- The same set, which nobody can change through the view. -/
  | unmodifiable (v : View ι)
  | union (a b : View ι)

namespace View

variable {ι α : Type}

/-- What a view answers when the leaves answer `look`. -/
def read (look : ι → Reading α) : View ι → Reading α
  | leaf l => look l
  | held _ v => (v.read look).held
  | unmodifiable v => v.read look
  | union a b => (a.read look).union (b.read look)

/-- The leaves, from left to right. -/
def leaves : View ι → List ι
  | leaf l => [l]
  | held _ v => v.leaves
  | unmodifiable v => v.leaves
  | union a b => a.leaves ++ b.leaves

/-- A view answers the same when its leaves do. -/
theorem read_congr {look look' : ι → Reading α} {v : View ι} (h : ∀ l ∈ v.leaves, look l = look' l) :
    v.read look = v.read look' := by
  induction v with
  | leaf l => exact h l (by simp [leaves])
  | held _ v ih => simp [read, ih h]
  | unmodifiable v ih => exact ih h
  | union a b iha ihb =>
    simp only [leaves, List.mem_append] at h
    simp [read, iha fun l hl => h l (.inl hl), ihb fun l hl => h l (.inr hl)]

end View

end GraphViews
