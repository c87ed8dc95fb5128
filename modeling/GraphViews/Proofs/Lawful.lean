import GraphViews.Proofs.Counting
import GraphViews.Reading
/-!
# Readings whose answers fit together

A reading is four answers that nothing ties together. In a lawful one, the items are the whole story: no two
of them are equal, there are as many as the size says, and what is contained is what equals one of them.
Stored sets are lawful, and `Reading.Lawful.union` says that a union of lawful readings is lawful.
-/

namespace GraphViews

/-- The four answers describe one set, and its items come up without repetition. -/
structure Reading.Lawful {α : Type} [BEq α] (r : Reading α) : Prop where
  distinct : Distinct r.items
  size_eq : r.size = r.items.length
  contains_eq : ∀ x, r.contains x = r.items.contains x
  isEmpty_eq : r.isEmpty = (r.size == 0)

theorem ItemSet.lawful_reading {α : Type} [BEq α] (s : ItemSet α) : s.reading.Lawful where
  distinct := s.distinct
  size_eq := rfl
  contains_eq _ := rfl
  isEmpty_eq := rfl

namespace Reading

variable {α : Type} [BEq α]

theorem lawful_empty : (empty : Reading α).Lawful where
  distinct := .nil
  size_eq := rfl
  contains_eq _ := rfl
  isEmpty_eq := rfl

namespace Lawful

variable {a b r : Reading α}

/-- The size of a lawful reading is the number of items that it contains. -/
theorem hasCount (h : r.Lawful) : HasCount r.contains r.size := by
  rw [h.size_eq]
  exact .of_distinct h.distinct fun x => (h.contains_eq x).symm

/-- The items with a property, which does not tell equal items apart, are what the set contains with that property. -/
theorem hasCount_and (h : r.Lawful) {p : α → Bool} (hp : ∀ {x y}, x == y → p x = p y) :
    HasCount (fun x => r.contains x && p x) (r.items.countP p) := by
  rw [List.countP_eq_length_filter]
  refine .of_distinct (h.distinct.filter p) fun x => ?_
  rw [elem_filter _ hp, h.contains_eq]

variable [EquivBEq α]

theorem contains_congr (h : r.Lawful) {x y : α} (hxy : x == y) : r.contains x = r.contains y := by
  rw [h.contains_eq, h.contains_eq, elem_congr _ hxy]

theorem contains_of_mem (h : r.Lawful) {x : α} (hx : x ∈ r.items) : r.contains x := by
  rw [h.contains_eq]
  exact elem_of_mem hx

/-- Readings that contain the same items are equally large. -/
theorem size_congr (ha : a.Lawful) (hb : b.Lawful) (h : ∀ x, a.contains x = b.contains x) : a.size = b.size :=
  ha.hasCount.unique (hb.hasCount.congr h)

/-- Comparing the sizes and one inclusion decides whether two lawful readings contain the same items. -/
theorem equal_iff (ha : a.Lawful) (hb : b.Lawful) : a.equal b ↔ ∀ x, a.contains x = b.contains x := by
  rw [Reading.equal, Bool.and_eq_true, beq_iff_eq, List.all_eq_true]
  constructor
  · rintro ⟨hsize, hall⟩ x
    have hsub : ∀ y, b.contains y → a.contains y := by
      intro y hy
      rw [hb.contains_eq] at hy
      obtain ⟨z, hz, hyz⟩ := (elem_iff b.items y).1 hy
      rw [ha.contains_congr hyz]
      exact hall z hz
    cases hx : b.contains x with
    | true => exact hsub x hx
    | false =>
      rw [Bool.eq_false_iff]
      intro hax
      -- With `x` besides the items of `b`, the first reading would be larger.
      have hcount : HasCount (fun y => b.contains y || x == y) (b.size + 1) := by
        refine hb.hasCount.or (.single x) fun y hy => ?_
        rw [Bool.eq_false_iff]
        intro hxy
        rw [hb.contains_congr hxy, hy] at hx
        cases hx
      have hle : b.size + 1 ≤ a.size := by
        refine hcount.le ha.hasCount fun y hy => ?_
        rcases Bool.or_eq_true_iff.1 hy with hy | hxy
        · exact hsub y hy
        · rwa [← ha.contains_congr hxy]
      omega
  · intro h
    refine ⟨ha.size_congr hb h, fun x hx => ?_⟩
    rw [h]
    exact hb.contains_of_mem hx

/-- What a union adds to its first operand: the items of the second that the first lacks. -/
theorem elem_rest (ha : a.Lawful) (hb : b.Lawful) (x : α) :
    (b.items.filter fun y => !a.contains y).contains x = (b.contains x && !a.contains x) := by
  rw [elem_filter _ fun e => by rw [ha.contains_congr e], hb.contains_eq]

theorem union (ha : a.Lawful) (hb : b.Lawful) : (a.union b).Lawful where
  distinct := by
    refine List.pairwise_append.2 ⟨ha.distinct, hb.distinct.filter _, fun x hx y hy => ?_⟩
    have hay : a.contains y = false := by simpa using (List.mem_filter.1 hy).2
    rw [Bool.eq_false_iff]
    intro hxy
    rw [← ha.contains_congr hxy, ha.contains_of_mem hx] at hay
    cases hay
  size_eq := by
    simp only [Reading.union, List.length_append]
    rw [ha.size_eq]
  contains_eq x := by
    have happ : (a.union b).items.contains x =
        (a.items.contains x || (b.items.filter fun y => !a.contains y).contains x) := by
      simp [Reading.union, List.contains_eq_any_beq]
    rw [happ, ha.elem_rest hb, ← ha.contains_eq]
    simp only [Reading.union]
    cases a.contains x <;> simp
  isEmpty_eq := by
    simp only [Reading.union, ha.isEmpty_eq, hb.isEmpty_eq, ha.size_eq, hb.size_eq]
    rw [Bool.eq_iff_iff]
    simp only [Bool.and_eq_true, beq_iff_eq, List.length_eq_zero_iff, Nat.add_eq_zero_iff]
    constructor
    · rintro ⟨h, k⟩
      simp [h, k]
    · rintro ⟨h, k⟩
      -- Nothing is filtered out of `b`, since `a` contains nothing.
      have hn : ∀ x, a.contains x = false := by
        intro x
        rw [ha.contains_eq, h]
        rfl
      simp only [hn, Bool.not_false, List.filter_true] at k
      exact ⟨h, k⟩

end Lawful

end Reading

end GraphViews
