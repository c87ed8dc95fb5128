import GraphViews.ItemSet
/-!
# What the changes to a set do

The view of a set is `contains`. Each change is described by what the set contains after it, and by its
size where the change may leave the set as it is.
-/

namespace GraphViews

/-- Two members of a list without equal items that are equal are the same. -/
theorem Distinct.eq_of_beq {α : Type} [BEq α] [PartialEquivBEq α] {xs : List α} (h : Distinct xs)
    {x y : α} (hx : x ∈ xs) (hy : y ∈ xs) (hxy : x == y) : x = y := by
  induction xs with
  | nil => cases hx
  | cons z zs ih =>
    obtain ⟨hz, hzs⟩ := List.pairwise_cons.1 h
    rcases List.mem_cons.1 hx with rfl | hx' <;> rcases List.mem_cons.1 hy with rfl | hy'
    · rfl
    · rw [hz y hy'] at hxy; cases hxy
    · rw [BEq.comm, hz x hx'] at hxy; cases hxy
    · exact ih hzs hx' hy'

namespace ItemSet

variable {α : Type} [BEq α]

theorem contains_iff_exists (s : ItemSet α) (x : α) : s.contains x ↔ ∃ y ∈ s.items, x == y := by
  simp [contains, List.contains_eq_any_beq]

@[simp] theorem contains_empty (x : α) : (empty : ItemSet α).contains x = false := rfl

@[simp] theorem size_empty : (empty : ItemSet α).size = 0 := rfl

theorem items_insert (s : ItemSet α) (x : α) :
    (s.insert x).items = if s.contains x then s.items else x :: s.items := by
  unfold insert
  split <;> simp_all

@[simp] theorem items_erase (s : ItemSet α) (x : α) :
    (s.erase x).items = s.items.filter fun y => !(x == y) := rfl

theorem size_insert (s : ItemSet α) (x : α) :
    (s.insert x).size = if s.contains x then s.size else s.size + 1 := by
  simp only [size, items_insert]
  split <;> rfl

theorem size_pos_of_contains {s : ItemSet α} {x : α} (h : s.contains x) : 0 < s.size := by
  obtain ⟨y, hy, -⟩ := (s.contains_iff_exists x).1 h
  exact List.length_pos_of_mem hy

/-- A set that contains `x` stays as it is when `x` is added, however `x` is written. -/
theorem insert_of_contains {s : ItemSet α} {x : α} (h : s.contains x) : s.insert x = s := by
  rw [insert, dif_pos h]

/-- A set that lacks `x` stays as it is when `x` is removed. -/
theorem erase_of_not_contains {s : ItemSet α} {x : α} (h : s.contains x = false) : s.erase x = s := by
  have hs : s.items.filter (fun y => !(x == y)) = s.items := by
    refine List.filter_eq_self.2 fun y hy => ?_
    rw [contains, List.contains_eq_any_beq, List.any_eq_false] at h
    simpa using h y hy
  cases s
  simp_all [erase]

/-- Adding items one by one leaves the set that extending it by them does. -/
theorem snd_addAll (s : ItemSet α) (xs : List α) : (s.addAll xs).2 = s.extend xs :=
  (List.foldl_hom Prod.snd fun _ _ => rfl).symm

section
variable [PartialEquivBEq α]

/-- Equal items are contained in the same sets. -/
theorem contains_congr (s : ItemSet α) {x y : α} (h : x == y) : s.contains x = s.contains y := by
  rw [Bool.eq_iff_iff, contains_iff_exists, contains_iff_exists]
  constructor
  · rintro ⟨z, hz, hxz⟩
    exact ⟨z, hz, BEq.trans (BEq.symm h) hxz⟩
  · rintro ⟨z, hz, hyz⟩
    exact ⟨z, hz, BEq.trans h hyz⟩

theorem contains_erase (s : ItemSet α) (x y : α) : (s.erase x).contains y = (!(x == y) && s.contains y) := by
  rw [Bool.eq_iff_iff]
  simp only [contains_iff_exists, items_erase, List.mem_filter, Bool.and_eq_true, Bool.not_eq_true']
  constructor
  · rintro ⟨z, ⟨hz, hxz⟩, hyz⟩
    refine ⟨?_, z, hz, hyz⟩
    rw [← hxz]
    exact BEq.congr_right hyz
  · rintro ⟨hxy, z, hz, hyz⟩
    refine ⟨z, ⟨hz, ?_⟩, hyz⟩
    rw [← hxy]
    exact (BEq.congr_right hyz).symm

theorem contains_of_contains_removeAll {s : ItemSet α} {xs : List α} {y : α} (hy : (s.removeAll xs).2.contains y) :
    s.contains y := by
  refine List.foldlRecOn xs _ (motive := fun r : Bool × ItemSet α => r.2.contains y → s.contains y) id ?_ hy
  intro r hr x _ hy
  have hx : (r.2.erase x).contains y := hy
  rw [contains_erase, Bool.and_eq_true] at hx
  exact hr hx.2

end

section
variable [EquivBEq α]

theorem contains_of_mem {s : ItemSet α} {x : α} (h : x ∈ s.items) : s.contains x :=
  (s.contains_iff_exists x).2 ⟨x, h, BEq.rfl⟩

theorem contains_insert (s : ItemSet α) (x y : α) : (s.insert x).contains y = (x == y || s.contains y) := by
  by_cases h : s.contains x
  · rw [insert_of_contains h]
    by_cases hxy : x == y
    · simp [hxy, ← s.contains_congr hxy, h]
    · simp [hxy]
  · rw [contains, items_insert, if_neg h, List.contains_cons, BEq.comm]; rfl

@[simp] theorem contains_insert_self (s : ItemSet α) (x : α) : (s.insert x).contains x := by
  simp [contains_insert]

@[simp] theorem contains_erase_self (s : ItemSet α) (x : α) : (s.erase x).contains x = false := by
  simp [contains_erase]

theorem contains_extend (s : ItemSet α) (xs : List α) (y : α) :
    (s.extend xs).contains y = (xs.contains y || s.contains y) := by
  induction xs generalizing s with
  | nil => simp [extend]
  | cons x xs ih =>
    have h : s.extend (x :: xs) = (s.insert x).extend xs := rfl
    rw [h, ih, contains_insert, List.contains_cons, BEq.comm (a := y)]
    cases x == y <;> simp

theorem contains_ofList (xs : List α) (y : α) : (ofList xs).contains y = xs.contains y := by
  simp [ofList, contains_extend]

end

end ItemSet

end GraphViews
