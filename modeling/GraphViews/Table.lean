import GraphViews.ItemSet
/-!
# Keyed tables

A table keeps one value for each key, in a list whose keys are distinct. Keys are compared by their
`==`, and a key stays written as it was when its entry was made. The order of the list means nothing.
-/

namespace GraphViews

/-- A table from keys `κ` to values `α`. -/
structure Table (κ α : Type) [BEq κ] where
  entries : List (κ × α)
  distinct : Distinct (entries.map (·.1))

namespace Table

variable {κ α : Type} [BEq κ]

/-- The table without entries. -/
def empty : Table κ α := ⟨[], .nil⟩

/-- The keys, each as it is written in the table. -/
def keys (t : Table κ α) : List κ := t.entries.map (·.1)

/-- The number of entries. -/
def size (t : Table κ α) : Nat := t.entries.length

/-- Whether some key equals `k`. -/
def contains (t : Table κ α) (k : κ) : Bool := t.entries.any (k == ·.1)

/-- The value at the key equal to `k`. -/
def find? (t : Table κ α) (k : κ) : Option α := (t.entries.find? (k == ·.1)).map (·.2)

/-- The table with the value at `k` put through `f`; unchanged if there is none. -/
def modify (t : Table κ α) (k : κ) (f : α → α) : Table κ α where
  entries := t.entries.map fun e => if k == e.1 then (e.1, f e.2) else e
  distinct := by
    have h : ((fun e : κ × α => e.1) ∘ fun e => if k == e.1 then (e.1, f e.2) else e) = (·.1) := by
      funext e
      simp only [Function.comp]
      split <;> rfl
    rw [List.map_map, h]
    exact t.distinct

/-- The table with the value `a` at `k`, or the table as it is if it has a key equal to `k`. -/
def insertNew (t : Table κ α) (k : κ) (a : α) : Table κ α :=
  if h : t.contains k then t
  else ⟨(k, a) :: t.entries, t.distinct.cons (by simpa [contains] using h)⟩

/-- The table with the value at `k` put through `f`, where a missing value counts as `a` and gets an
entry. -/
def upsert (t : Table κ α) (k : κ) (a : α) (f : α → α) : Table κ α :=
  if t.contains k then t.modify k f else t.insertNew k (f a)

/-- The table without the entry whose key equals `k`. -/
def erase (t : Table κ α) (k : κ) : Table κ α where
  entries := t.entries.filter fun e => !(k == e.1)
  distinct := by
    have h : (t.entries.filter fun e => !(k == e.1)).map (·.1) =
        (t.entries.map (·.1)).filter fun k' => !(k == k') := by
      rw [List.filter_map]; rfl
    rw [h]
    exact t.distinct.filter _

/-- The table with the value `a` at `k` in place of any other. -/
def put (t : Table κ α) (k : κ) (a : α) : Table κ α := (t.erase k).insertNew k a

end Table

end GraphViews
