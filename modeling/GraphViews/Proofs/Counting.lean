import GraphViews.ItemSet.Lemmas
import Mathlib.Data.List.Basic
/-!
# Counting up to equality

How many items have a property, equal items counted once. `Distinct.length_eq` says that two lists without
equal items that hold the same items up to equality are equally long, so there is only one such number
(`HasCount.unique`), whichever list of representatives it is taken from.
-/

namespace GraphViews

variable {α : Type} [BEq α]

/-! ## Lists without equal items -/

theorem elem_iff (xs : List α) (x : α) : xs.contains x ↔ ∃ y ∈ xs, x == y := by
  simp [List.contains_eq_any_beq]

theorem elem_map {β : Type} (xs : List β) (f : β → α) (x : α) : (xs.map f).contains x ↔ ∃ y ∈ xs, x == f y := by
  simp [List.contains_eq_any_beq]

/-- What a list contains after a filter that does not tell equal items apart. -/
theorem elem_filter (xs : List α) {p : α → Bool} (hp : ∀ {x y}, x == y → p x = p y) (x : α) :
    (xs.filter p).contains x = (xs.contains x && p x) := by
  rw [Bool.eq_iff_iff]
  simp only [elem_iff, List.mem_filter, Bool.and_eq_true]
  constructor
  · rintro ⟨y, ⟨hy, hpy⟩, hxy⟩
    exact ⟨⟨y, hy, hxy⟩, by rw [hp hxy]; exact hpy⟩
  · rintro ⟨⟨y, hy, hxy⟩, hpx⟩
    exact ⟨y, ⟨hy, by rw [← hp hxy]; exact hpx⟩, hxy⟩

section
variable [EquivBEq α]

theorem elem_of_mem {xs : List α} {x : α} (h : x ∈ xs) : xs.contains x := (elem_iff xs x).2 ⟨x, h, BEq.rfl⟩

theorem elem_congr (xs : List α) {x y : α} (h : x == y) : xs.contains x = xs.contains y := by
  have : (fun z => x == z) = fun z => y == z := funext fun z => BEq.congr_left h
  rw [List.contains_eq_any_beq, List.contains_eq_any_beq, this]

/-- A list without equal items is at most as long as any list that contains them all. -/
theorem Distinct.length_le {xs ys : List α} (h : Distinct xs) (hs : ∀ x ∈ xs, ys.contains x) :
    xs.length ≤ ys.length := by
  induction xs generalizing ys with
  | nil => simp
  | cons x xs ih =>
    obtain ⟨hx, hxs⟩ := List.pairwise_cons.1 h
    obtain ⟨y, hy, hxy⟩ := (elem_iff ys x).1 (hs x (by simp))
    -- The other items stay contained when the partner of `x` is taken out.
    have hrest : xs.length ≤ (ys.eraseP (x == ·)).length := by
      refine ih hxs fun z hz => ?_
      obtain ⟨w, hw, hzw⟩ := (elem_iff ys z).1 (hs z (by simp [hz]))
      have hxw : ¬(x == w) = true := by
        rw [← BEq.congr_right hzw, hx z hz]
        simp
      exact (elem_iff _ z).2 ⟨w, (List.mem_eraseP_of_neg hxw).2 hw, hzw⟩
    have hlen : (ys.eraseP (x == ·)).length = ys.length - 1 := List.length_eraseP_of_mem hy hxy
    have hpos : 0 < ys.length := List.length_pos_of_mem hy
    rw [List.length_cons]
    omega

/-- Lists without equal items that contain the same items are equally long. -/
theorem Distinct.length_eq {xs ys : List α} (hx : Distinct xs) (hy : Distinct ys)
    (h : ∀ x, xs.contains x = ys.contains x) : xs.length = ys.length := by
  refine Nat.le_antisymm (hx.length_le fun x hm => ?_) (hy.length_le fun y hm => ?_)
  · rw [← h]
    exact elem_of_mem hm
  · rw [h]
    exact elem_of_mem hm

end

/-! ## The number of items with a property -/

/-- The property holds of exactly `n` items, equal items counted once. -/
def HasCount (p : α → Bool) (n : Nat) : Prop := ∃ s : ItemSet α, (∀ x, s.contains x = p x) ∧ s.size = n

namespace HasCount

variable {p q : α → Bool} {m n : Nat}

theorem congr (h : HasCount p n) (e : ∀ x, q x = p x) : HasCount q n := by
  obtain ⟨s, hs, hn⟩ := h
  exact ⟨s, fun x => (hs x).trans (e x).symm, hn⟩

/-- A list without equal items counts what it contains. -/
theorem of_distinct {xs : List α} (h : Distinct xs) (hc : ∀ x, xs.contains x = p x) : HasCount p xs.length :=
  ⟨⟨xs, h⟩, hc, rfl⟩

theorem of_none (h : ∀ x, p x = false) : HasCount p 0 := ⟨.empty, fun x => (h x).symm, rfl⟩

variable [EquivBEq α]

/-- A property that can be counted does not tell equal items apart. -/
theorem eq_of_beq (h : HasCount p n) {x y : α} (hxy : x == y) : p x = p y := by
  obtain ⟨s, hs, -⟩ := h
  rw [← hs, ← hs, s.contains_congr hxy]

theorem le (h : HasCount p m) (k : HasCount q n) (hpq : ∀ x, p x → q x) : m ≤ n := by
  obtain ⟨s, hs, rfl⟩ := h
  obtain ⟨t, ht, rfl⟩ := k
  refine s.distinct.length_le fun x hx => ?_
  have hq : q x := hpq x (by rw [← hs]; exact s.contains_of_mem hx)
  rwa [← ht] at hq

theorem unique (h : HasCount p m) (k : HasCount p n) : m = n :=
  Nat.le_antisymm (h.le k fun _ => id) (k.le h fun _ => id)

/-- One item, however it is written. -/
theorem single (x : α) : HasCount (x == ·) 1 := by
  refine ⟨ItemSet.empty.insert x, fun y => ?_, ?_⟩
  · rw [ItemSet.contains_insert, ItemSet.contains_empty, Bool.or_false]
  · simp [ItemSet.size_insert]

/-- Two properties that exclude each other add up. -/
theorem or (h : HasCount p m) (k : HasCount q n) (hpq : ∀ x, p x → q x = false) :
    HasCount (fun x => p x || q x) (m + n) := by
  have hp : ∀ {x y}, x == y → p x = p y := h.eq_of_beq
  obtain ⟨s, hs, rfl⟩ := h
  obtain ⟨t, ht, rfl⟩ := k
  have hd : Distinct (s.items ++ t.items) := by
    refine List.pairwise_append.2 ⟨s.distinct, t.distinct, fun x hx y hy => ?_⟩
    rw [Bool.eq_false_iff]
    intro hxy
    have hpx : p x := by rw [← hs]; exact s.contains_of_mem hx
    have hqy : q y := by rw [← ht]; exact t.contains_of_mem hy
    rw [hpq y (by rw [← hp hxy]; exact hpx)] at hqy
    cases hqy
  refine ⟨⟨_, hd⟩, fun x => ?_, by simp [ItemSet.size]⟩
  simp only [← hs, ← ht, ItemSet.contains, List.contains_eq_any_beq, List.any_append]

/-- What is left when a stronger property is taken away. -/
theorem sub (h : HasCount p m) (k : HasCount q n) (hqp : ∀ x, q x → p x) :
    HasCount (fun x => p x && !q x) (m - n) := by
  have hq : ∀ {x y}, x == y → q x = q y := k.eq_of_beq
  have hnq : ∀ {x y}, x == y → (!q x) = !q y := by
    intro x y hxy
    rw [hq hxy]
  obtain ⟨s, hs, rfl⟩ := h
  have hn : HasCount q (s.items.filter q).length := by
    refine of_distinct (s.distinct.filter q) fun x => ?_
    have hx : s.items.contains x = p x := hs x
    rw [elem_filter _ hq, hx]
    cases hqx : q x with
    | false => simp
    | true => simp [hqp x hqx]
  have hlen : s.items.length = (s.items.filter q).length + (s.items.filter fun x => !q x).length :=
    List.length_eq_length_filter_add q
  have hm : s.size - n = (s.items.filter fun x => !q x).length := by
    rw [k.unique hn, ItemSet.size]
    omega
  rw [hm]
  refine of_distinct (s.distinct.filter _) fun x => ?_
  rw [elem_filter _ hnq, ← hs]
  rfl

end HasCount

/-- A set counts what it contains. -/
theorem ItemSet.hasCount (s : ItemSet α) : HasCount s.contains s.size := ⟨s, fun _ => rfl, rfl⟩

theorem ItemSet.size_erase [EquivBEq α] (s : ItemSet α) (x : α) :
    (s.erase x).size = s.size - if s.contains x then 1 else 0 := by
  cases h : s.contains x with
  | false => simp [erase_of_not_contains h]
  | true =>
    refine (s.erase x).hasCount.unique ((s.hasCount.sub (.single x) fun y hxy => ?_).congr fun y => ?_)
    · rwa [← s.contains_congr hxy]
    · rw [contains_erase, Bool.and_comm]

end GraphViews
