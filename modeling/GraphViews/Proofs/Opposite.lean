import GraphViews.Node.Atom
import GraphViews.Proofs.Pairs
import GraphViews.Violation
/-!
# The other end

A pair that is given one of its ends hands out the other. It tries the end written first before the other one, so equal
questions to equal pairs may be answered from different ends. Which answers are right can be said without any order
(`Ends.Joins`), and `Joins.unique` says that up to equality there is only one. So it does not matter where an answer
comes from, and asking again with the answer leads back.
-/

namespace GraphViews.Ends

variable {ν : Type}

/-- The pair of the same kind with the ends `u` and `v`. -/
def withEnds (p : Ends ν) (u v : ν) : Ends ν :=
  match p with
  | ordered _ _ => ordered u v
  | unordered _ _ => unordered u v

variable [BEq ν]

/-- The nodes are the two ends of the pair, in the order in which they are written or in the other. -/
def Joins (p : Ends ν) (x y : ν) : Prop := (p.fst == x ∧ p.snd == y) ∨ (p.snd == x ∧ p.fst == y)

variable {p q : Ends ν} {x y z : ν}

theorem Joins.symm (h : p.Joins x y) : p.Joins y x := by
  rcases h with ⟨hx, hy⟩ | ⟨hx, hy⟩
  · exact .inr ⟨hy, hx⟩
  · exact .inl ⟨hy, hx⟩

theorem Joins.contains_left (h : p.Joins x y) : p.contains x := by
  unfold contains
  rcases h with ⟨hx, -⟩ | ⟨hx, -⟩
  · rw [hx, Bool.true_or]
  · rw [hx, Bool.or_true]

/-- Without a direction the order of the ends does not count. -/
theorem withEnds_comm (hp : p.isOrdered = false) (x y : ν) : (p.withEnds x y == p) = (p.withEnds y x == p) := by
  cases p with
  | ordered s t => cases hp
  | unordered u v => simp only [withEnds, unordered_beq, Bool.or_comm, Bool.and_comm]

variable [EquivBEq ν]

theorem withEnds_beq_of_ends (hx : p.fst == x) (hy : p.snd == y) : p.withEnds x y == p := by
  have hx' : x == p.fst := BEq.symm hx
  have hy' : y == p.snd := BEq.symm hy
  cases p with
  | ordered s t =>
    rw [withEnds, ordered_beq, Bool.and_eq_true]
    exact ⟨hx', hy'⟩
  | unordered u v =>
    rw [withEnds, unordered_beq, Bool.or_eq_true, Bool.and_eq_true]
    exact .inl ⟨hx', hy'⟩

namespace Joins

/-- If both ends equal `x`, it does not matter which of them is taken for it. -/
theorem unique (h : p.Joins x y) (k : p.Joins x z) : y == z := by
  rcases h with ⟨hx, hy⟩ | ⟨hx, hy⟩ <;> rcases k with ⟨kx, kz⟩ | ⟨kx, kz⟩
  · exact BEq.trans (BEq.symm hy) kz
  · have hyx : y == x := BEq.trans (BEq.symm hy) kx
    have hxz : x == z := BEq.trans (BEq.symm hx) kz
    exact BEq.trans hyx hxz
  · have hyx : y == x := BEq.trans (BEq.symm hy) kx
    have hxz : x == z := BEq.trans (BEq.symm hx) kz
    exact BEq.trans hyx hxz
  · exact BEq.trans (BEq.symm hy) kz

theorem congr (h : p.Joins x y) (hpq : p == q) (hxz : x == z) : q.Joins z y := by
  have hends : p.Joins z y := by
    unfold Joins at h ⊢
    rwa [BEq.congr_right hxz, BEq.congr_right hxz] at h
  unfold Joins at hends ⊢
  rcases fst_snd_of_beq hpq with ⟨hf, hs⟩ | ⟨hf, hs⟩
  · rwa [BEq.congr_left hf, BEq.congr_left hs, BEq.congr_left hf, BEq.congr_left hs] at hends
  · rwa [BEq.congr_left hf, BEq.congr_left hs, BEq.congr_left hf, BEq.congr_left hs, or_comm] at hends

/-- The two ends make the pair again, in the order in which they are written in it. -/
theorem withEnds_beq (h : p.Joins x y) : p.withEnds x y == p ∨ p.withEnds y x == p := by
  rcases h with ⟨hx, hy⟩ | ⟨hx, hy⟩
  · exact .inl (withEnds_beq_of_ends hx hy)
  · exact .inr (withEnds_beq_of_ends hy hx)

end Joins

/-! ## What is answered -/

/-- Only a node that is no end of the pair is left without an answer. -/
theorem opposite?_eq_none_iff (p : Ends ν) (x : ν) : p.opposite? x = none ↔ p.contains x = false := by
  unfold opposite? contains
  rw [BEq.comm (a := x), BEq.comm (a := x)]
  cases p.fst == x <;> cases p.snd == x <;> simp

/-- An answer is one of the ends, as it is written, and `x` is the other. -/
theorem joins_of_opposite? (h : p.opposite? x = some y) : (y = p.fst ∨ y = p.snd) ∧ p.Joins x y := by
  unfold opposite? at h
  by_cases hf : x == p.fst
  · rw [if_pos hf] at h
    cases h
    exact ⟨.inr rfl, .inl ⟨BEq.symm hf, BEq.rfl⟩⟩
  · rw [if_neg hf] at h
    by_cases hs : x == p.snd
    · rw [if_pos hs] at h
      cases h
      exact ⟨.inl rfl, .inr ⟨BEq.symm hs, BEq.rfl⟩⟩
    · rw [if_neg hs] at h
      cases h

/-- There is an answer for an end and a violation for any other node. -/
theorem opposite_cases (p : Ends ν) (x : ν) : (p.contains x ∧ ∃ y, p.opposite x = .ok y ∧ p.Joins x y) ∨
    (p.contains x = false ∧ p.opposite x = .error (.notAnEnd p x)) := by
  unfold opposite
  cases h : p.opposite? x with
  | none => exact .inr ⟨(p.opposite?_eq_none_iff x).1 h, rfl⟩
  | some y =>
    have hy : p.Joins x y := (joins_of_opposite? h).2
    exact .inl ⟨hy.contains_left, y, rfl, hy⟩

theorem opposite_eq_ok (h : p.opposite x = .ok y) : (y = p.fst ∨ y = p.snd) ∧ p.Joins x y := by
  unfold opposite at h
  cases h' : p.opposite? x with
  | none =>
    rw [h'] at h
    cases h
  | some z =>
    rw [h'] at h
    cases h
    exact joins_of_opposite? h'

/-- Up to equality, a pair gives the only right answer. -/
theorem opposite_of_joins (h : p.Joins x y) : ∃ z, p.opposite x = .ok z ∧ z == y := by
  rcases p.opposite_cases x with ⟨-, z, hz, hj⟩ | ⟨hx, -⟩
  · exact ⟨z, hz, hj.unique h⟩
  · rw [h.contains_left] at hx
    cases hx

/-! ## The whole story -/

/-- What a pair tells of the end opposite to `x`, in the checked form and in the asserted form. -/
structure AnswersFor (p : Ends ν) (x : ν) : Prop where
  answered : ∀ s : Strictness, (∃ y, s.report (p.opposite x) = .ok y) ↔ p.contains x
  refused : ∀ s : Strictness, p.contains x = false → s.report (p.opposite x) = .error ⟨s, .notAnEnd p x⟩
  isEnd : ∀ y, p.opposite x = .ok y → (y = p.fst ∨ y = p.snd) ∧ p.contains y
  /-- Asking with the answer leads back. -/
  back : ∀ y, p.opposite x = .ok y → ∃ z, p.opposite y = .ok z ∧ z == x
  rebuilt : ∀ y, p.opposite x = .ok y → p.withEnds x y == p ∨ p.withEnds y x == p
  rebuilt_unordered : p.isOrdered = false → ∀ y, p.opposite x = .ok y → p.withEnds x y == p ∧ p.withEnds y x == p
  /-- Equal pairs answer alike for equal nodes, whichever of their ends they answer with. -/
  congr : ∀ q z, p == q → x == z → p.contains x = q.contains z ∧
    ((∃ y y', p.opposite x = .ok y ∧ q.opposite z = .ok y' ∧ y == y') ∨
      (p.opposite x = .error (.notAnEnd p x) ∧ q.opposite z = .error (.notAnEnd q z)))

/-- However a pair and a node are written, the pair has an answer for the node just if the node is one of its ends. The
answer is the other end, and taking the other end is undone by taking it again. -/
theorem opposite_involutive (p : Ends ν) (x : ν) : p.AnswersFor x where
  answered s := by
    rcases p.opposite_cases x with ⟨hx, y, hy, -⟩ | ⟨hx, hy⟩
    · simp [hx, hy, Strictness.report]
    · simp [hx, hy, Strictness.report]
  refused s hx := by
    rcases p.opposite_cases x with ⟨hx', -⟩ | ⟨-, hy⟩
    · rw [hx] at hx'
      cases hx'
    · rw [hy, Strictness.report]
  isEnd y hy := by
    obtain ⟨hend, hj⟩ := opposite_eq_ok hy
    exact ⟨hend, hj.symm.contains_left⟩
  back y hy := opposite_of_joins (opposite_eq_ok hy).2.symm
  rebuilt y hy := (opposite_eq_ok hy).2.withEnds_beq
  rebuilt_unordered hp y hy := by
    have hpair := (opposite_eq_ok hy).2.withEnds_beq
    rw [withEnds_comm hp, or_self] at hpair
    exact ⟨by rwa [withEnds_comm hp], hpair⟩
  congr q z hpq hxz := by
    have hcontains : p.contains x = q.contains z := contains_congr hpq hxz
    refine ⟨hcontains, ?_⟩
    rcases p.opposite_cases x with ⟨-, y, hy, hj⟩ | ⟨hx, hy⟩
    · obtain ⟨y', hy', hyy⟩ := opposite_of_joins (hj.congr hpq hxz)
      exact .inl ⟨y, y', hy, hy', BEq.symm hyy⟩
    · rcases q.opposite_cases z with ⟨hz, -⟩ | ⟨-, hz⟩
      · rw [← hcontains, hx] at hz
        cases hz
      · exact .inr ⟨hy, hz⟩

/-- A self-loop whose ends are written differently, asked in both of its orders: the answers are written differently. An
edge between two nodes beside it, asked with a node that is no end. -/
theorem opposite_involutive_loop :
    let x : Node Atom := .pair (.unordered (.atom (.integer 1)) (.atom (.string "1")))
    let x' : Node Atom := .pair (.unordered (.atom (.string "1")) (.atom (.integer 1)))
    let y : Node Atom := .atom (.integer 3)
    let p : Ends (Node Atom) := .unordered x x'
    let q : Ends (Node Atom) := .unordered x' x
    let r : Ends (Node Atom) := .ordered x y
    p == q ∧ x == x' ∧ p.opposite x = .ok x' ∧ q.opposite x' = .ok x ∧
      (∃ z, p.opposite x' = .ok z ∧ z == x) ∧
      ((∃ y y', p.opposite x = .ok y ∧ q.opposite x' = .ok y' ∧ y == y') ∨
        (p.opposite x = .error (.notAnEnd p x) ∧ q.opposite x' = .error (.notAnEnd q x'))) ∧
      (∃ z, r.opposite y = .ok z ∧ z == x') ∧
      r.opposite (.atom (.integer 1)) = .error (.notAnEnd r (.atom (.integer 1))) := by
  intro x x' y p q r
  have hpq : p == q := by decide
  have hxx : x == x' := by decide
  have hp : p.AnswersFor x := opposite_involutive p x
  have hr : r.AnswersFor x' := opposite_involutive r x'
  exact ⟨hpq, hxx, rfl, rfl, hp.back x' rfl, (hp.congr q x' hpq hxx).2, hr.back y rfl, rfl⟩

end GraphViews.Ends
