import GraphViews.Proofs.Combined
import GraphViews.View.Cursor
/-!
# Drawing from a cursor while the leaves change

A cursor is drawn from at one moment after another, and at each moment the leaves answer as they do then. What
comes up at a moment depends on the candidates that are left and on what the views that bar them contain at that
moment, and on nothing else.

`drawAt_union` says how a cursor of a union works off the cursors of its operands. The other results follow from
it, or from the candidates directly, by induction on the view: nothing comes up that was not there at the start;
while the leaves only grow nothing comes up twice (`distinct_drawAt`); while they only shrink nothing is missed
(`covers_drawAt`).
-/

namespace GraphViews

/-- The second list is the first with every entry repeated, once or more. -/
inductive Repeats {M : Type} : List M → List M → Prop
  | nil : Repeats [] []
  | once {now : M} {nows nows' : List M} (h : Repeats nows nows') : Repeats (now :: nows) (now :: nows')
  | again {now : M} {nows nows' : List M} (h : Repeats (now :: nows) nows') : Repeats (now :: nows) (now :: nows')

namespace Repeats

variable {M : Type} {nows nows' : List M} {now : M}

theorem refl : ∀ nows : List M, Repeats nows nows
  | [] => .nil
  | _ :: nows => .once (refl nows)

theorem mem_of_mem (h : Repeats nows nows') {m : M} (hm : m ∈ nows') : m ∈ nows := by
  induction h with
  | nil => exact hm
  | once _ ih =>
    rcases List.mem_cons.1 hm with rfl | hm
    · exact List.mem_cons_self
    · exact List.mem_cons_of_mem _ (ih hm)
  | again _ ih =>
    rcases List.mem_cons.1 hm with rfl | hm
    · exact List.mem_cons_self
    · exact ih hm

theorem head_eq (h : Repeats (now :: nows) nows') : ∃ rest, nows' = now :: rest := by
  cases h with
  | once _ => exact ⟨_, rfl⟩
  | again _ => exact ⟨_, rfl⟩

end Repeats

namespace View

/-- Whether all that will come up is decided once a cursor is at the start of the view: there is no union in it, or
only behind cells. -/
def settled {ι : Type} : View ι → Bool
  | leaf _ => true
  | held holder v => holder == .cell || v.settled
  | unmodifiable v => v.settled
  | union _ _ => false

/-- To show something of all views, show it of settled ones, and of others if what they are made of has it. -/
theorem induct_settled {ι : Type} {motive : View ι → Prop} (settled : ∀ v, v.settled → motive v)
    (held : ∀ holder v, holder ≠ .cell → motive v → motive (.held holder v))
    (unmodifiable : ∀ v, motive v → motive (.unmodifiable v))
    (union : ∀ a b, motive a → motive b → motive (.union a b)) (v : View ι) : motive v := by
  induction v with
  | leaf l => exact settled _ rfl
  | held holder v ih =>
    by_cases h : holder = .cell
    · exact settled _ (by simp [View.settled, h])
    · exact held holder v h ih
  | unmodifiable v ih => exact unmodifiable v ih
  | union a b iha ihb => exact union a b iha ihb

end View

namespace Cursor

variable {M ι α : Type}

/-- Draws one item at each of the moments, until none is left. Every item comes with its moment. -/
def drawAt (look : M → ι → Reading α) : List M → Cursor ι α → List (M × α) × Cursor ι α
  | [], cursor => ([], cursor)
  | now :: nows, cursor =>
    match next (look now) cursor with
    | none => ([], [])
    | some (x, rest) => ((now, x) :: (drawAt look nows rest).1, (drawAt look nows rest).2)

variable (look : M → ι → Reading α)

/-! ## One candidate after another -/

@[simp] theorem drawAt_nil (nows : List M) : drawAt look nows ([] : Cursor ι α) = ([], []) := by
  cases nows <;> rfl

theorem drawAt_admitted {now : M} {c : Candidate ι α} (h : c.admitted (look now)) (nows : List M) (rest : Cursor ι α) :
    drawAt look (now :: nows) (c :: rest) =
      ((now, c.item) :: (drawAt look nows rest).1, (drawAt look nows rest).2) := by
  simp [drawAt, next, h]

theorem drawAt_barred {now : M} {c : Candidate ι α} (h : c.admitted (look now) = false) (nows : List M)
    (rest : Cursor ι α) : drawAt look (now :: nows) (c :: rest) = drawAt look (now :: nows) rest := by
  simp [drawAt, next, h]

/-- What comes up is a candidate that is admitted at its moment. -/
theorem mem_drawAt {nows : List M} {cursor : Cursor ι α} {p : M × α} (hp : p ∈ (drawAt look nows cursor).1) :
    p.1 ∈ nows ∧ ∃ c ∈ cursor, c.item = p.2 := by
  induction cursor generalizing nows with
  | nil => simp at hp
  | cons c rest ih =>
    cases nows with
    | nil => cases hp
    | cons now nows =>
      by_cases h : c.admitted (look now)
      · rw [drawAt_admitted look h] at hp
        rcases List.mem_cons.1 hp with rfl | hp
        · exact ⟨List.mem_cons_self, c, List.mem_cons_self, rfl⟩
        · obtain ⟨hm, c', hc', hx⟩ := ih hp
          exact ⟨List.mem_cons_of_mem _ hm, c', List.mem_cons_of_mem _ hc', hx⟩
      · rw [drawAt_barred look (Bool.eq_false_iff.2 h)] at hp
        obtain ⟨hm, c', hc', hx⟩ := ih hp
        exact ⟨hm, c', List.mem_cons_of_mem _ hc', hx⟩

/-- Every draw uses up a candidate at least. -/
theorem length_drawAt_le (nows : List M) (cursor : Cursor ι α) :
    (drawAt look nows cursor).2.length ≤ cursor.length - nows.length := by
  induction cursor generalizing nows with
  | nil => simp
  | cons c rest ih =>
    cases nows with
    | nil => simp [drawAt]
    | cons now nows =>
      by_cases h : c.admitted (look now)
      · have := ih nows
        rw [drawAt_admitted look h]
        simp only [List.length_cons]
        omega
      · have := ih (now :: nows)
        rw [drawAt_barred look (Bool.eq_false_iff.2 h)]
        simp only [List.length_cons] at this ⊢
        omega

/-- Where every candidate is admitted or barred as it is by `look₀`, one item is drawn at each moment of all that
`look₀` admits, and the others stay. -/
theorem drawAt_steady (look₀ : ι → Reading α) {nows : List M} {cursor : Cursor ι α}
    (h : ∀ now ∈ nows, ∀ c ∈ cursor, c.admitted (look now) = c.admitted look₀) :
    (drawAt look nows cursor).1.map (·.2) = (drain look₀ cursor).take nows.length ∧
      drain look₀ (drawAt look nows cursor).2 = (drain look₀ cursor).drop nows.length := by
  induction cursor generalizing nows with
  | nil => simp [drain]
  | cons c rest ih =>
    cases nows with
    | nil => simp [drawAt]
    | cons now nows =>
      have hc : c.admitted (look now) = c.admitted look₀ := h now List.mem_cons_self c List.mem_cons_self
      cases ha : c.admitted look₀ with
      | true =>
        have hdrain : drain look₀ (c :: rest) = c.item :: drain look₀ rest := by simp [drain, ha]
        obtain ⟨hfirst, hrest⟩ := ih fun m hm c' hc' => h m (List.mem_cons_of_mem _ hm) c' (List.mem_cons_of_mem _ hc')
        rw [drawAt_admitted look (hc.trans ha), hdrain, List.map_cons, hfirst, hrest]
        exact ⟨rfl, rfl⟩
      | false =>
        have hdrain : drain look₀ (c :: rest) = drain look₀ rest := by simp [drain, ha]
        rw [drawAt_barred look (hc.trans ha), hdrain]
        exact ih fun m hm c' hc' => h m hm c' (List.mem_cons_of_mem _ hc')

/-! ## A union -/

theorem drawAt_append (nows : List M) (c d : Cursor ι α) :
    drawAt look nows (c ++ d) =
      ((drawAt look nows c).1 ++ (drawAt look (nows.drop (drawAt look nows c).1.length) d).1,
        (drawAt look nows c).2 ++ (drawAt look (nows.drop (drawAt look nows c).1.length) d).2) := by
  induction c generalizing nows with
  | nil => simp
  | cons c rest ih =>
    cases nows with
    | nil => rfl
    | cons now nows =>
      by_cases h : c.admitted (look now)
      · simp only [List.cons_append, drawAt_admitted look h, ih, List.length_cons, List.drop_succ_cons]
      · have h' := Bool.eq_false_iff.2 h
        rw [List.cons_append, drawAt_barred look h', drawAt_barred look h', ih]

/-- A cursor barred by one more view keeps drawing from the cursor without that bar until an item comes up that the
view does not contain. -/
theorem drawAt_bar (a : View ι) (nows : List M) (d : Cursor ι α) :
    ∃ nows', Repeats nows nows' ∧
      drawAt look nows (d.map (Candidate.bar a)) =
        ((drawAt look nows' d).1.filter fun p => !(a.read (look p.1)).contains p.2,
          (drawAt look nows' d).2.map (Candidate.bar a)) := by
  induction d generalizing nows with
  | nil => exact ⟨nows, .refl nows, by simp⟩
  | cons c rest ih =>
    cases nows with
    | nil => exact ⟨[], .nil, rfl⟩
    | cons now nows =>
      have hbar : (c.bar a).admitted (look now) = (!(a.read (look now)).contains c.item && c.admitted (look now)) := rfl
      cases hc : c.admitted (look now) with
      | false =>
        obtain ⟨nows', hr, heq⟩ := ih (now :: nows)
        obtain ⟨tail, rfl⟩ := hr.head_eq
        refine ⟨_, hr, ?_⟩
        rw [List.map_cons, drawAt_barred look (by simp [hbar, hc]), heq, drawAt_barred look hc]
      | true =>
        cases ha : (a.read (look now)).contains c.item with
        | true =>
          -- The item is drawn but goes no further, so the same draw goes on to the next.
          obtain ⟨nows', hr, heq⟩ := ih (now :: nows)
          refine ⟨_, hr.again, ?_⟩
          rw [List.map_cons, drawAt_barred look (by simp [hbar, ha]), heq, drawAt_admitted look hc]
          simp [ha]
        | false =>
          obtain ⟨nows', hr, heq⟩ := ih nows
          refine ⟨_, hr.once, ?_⟩
          rw [List.map_cons, drawAt_admitted look (by simp [hbar, hc, ha]), heq, drawAt_admitted look hc]
          simp [ha, Candidate.bar]

/-- A union first yields what its first operand does. Each draw after that draws from the second operand, again and
again until an item comes up that the first operand does not contain by then. -/
theorem drawAt_union (look₀ : ι → Reading α) (a b : View ι) (nows : List M) :
    ∃ nows', Repeats (nows.drop (drawAt look nows (start look₀ a)).1.length) nows' ∧
      drawAt look nows (start look₀ (.union a b)) =
        ((drawAt look nows (start look₀ a)).1 ++
            (drawAt look nows' (start look₀ b)).1.filter fun p => !(a.read (look p.1)).contains p.2,
          (drawAt look nows (start look₀ a)).2 ++ (drawAt look nows' (start look₀ b)).2.map (Candidate.bar a)) := by
  obtain ⟨nows', hr, heq⟩ := drawAt_bar look a (nows.drop (drawAt look nows (start look₀ a)).1.length) (start look₀ b)
  refine ⟨nows', hr, ?_⟩
  rw [start, drawAt_append, heq]

/-! ## Views without unions -/

/-- Only a cell has its items copied. -/
theorem start_held {holder : Holder} (h : holder ≠ .cell) (look₀ : ι → Reading α) (v : View ι) :
    start look₀ (.held holder v) = start look₀ v := by
  cases holder with
  | cell => exact absurd rfl h
  | reference | box | handle => rfl

/-- Nothing bars the candidates of a view without unions. -/
theorem start_settled (look₀ : ι → Reading α) {v : View ι} (h : v.settled) :
    start look₀ v = (v.read look₀).items.map fun x => ⟨x, []⟩ := by
  induction v with
  | leaf l => rfl
  | held holder v ih =>
    cases holder with
    | cell => rfl
    | reference | box | handle => exact ih h
  | unmodifiable v ih => exact ih h
  | union a b => cases h

/-- A view without unions yields the items that it had at the start, whatever happens to its leaves. -/
theorem drawAt_settled (look₀ : ι → Reading α) {v : View ι} (h : v.settled) (nows : List M) :
    (drawAt look nows (start look₀ v)).1.map (·.2) = (v.read look₀).items.take nows.length ∧
      ((drawAt look nows (start look₀ v)).2 = [] → (v.read look₀).items.length ≤ nows.length) := by
  have hadmitted : ∀ now ∈ nows, ∀ c ∈ start look₀ v, c.admitted (look now) = c.admitted look₀ := by
    intro now _ c hc
    rw [start_settled look₀ h] at hc
    obtain ⟨x, -, rfl⟩ := List.mem_map.1 hc
    rfl
  obtain ⟨hfirst, hrest⟩ := drawAt_steady look look₀ hadmitted
  rw [drain_start] at hfirst hrest
  refine ⟨hfirst, fun hend => ?_⟩
  rw [hend] at hrest
  exact List.drop_eq_nil_iff.1 hrest.symm

/-! ## What comes up was there, once, and all of it -/

section
variable [BEq α] {look₀ : ι → Reading α} {v : View ι}

theorem contains_of_mem_start [EquivBEq α] (h₀ : ∀ l, (look₀ l).Lawful) :
    ∀ c ∈ start look₀ v, (v.read look₀).contains c.item := by
  induction v using View.induct_settled with
  | settled v hv =>
    intro c hc
    rw [start_settled look₀ hv] at hc
    obtain ⟨x, hx, rfl⟩ := List.mem_map.1 hc
    exact (View.lawful_read fun l _ => h₀ l).contains_of_mem hx
  | held holder v hne ih =>
    rw [start_held hne]
    exact ih
  | unmodifiable v ih => exact ih
  | union a b iha ihb =>
    intro c hc
    rw [View.read, Reading.union, Bool.or_eq_true]
    rcases List.mem_append.1 hc with hc | hc
    · exact .inl (iha c hc)
    · obtain ⟨c', hc', rfl⟩ := List.mem_map.1 hc
      exact .inr (ihb c' hc')

/-- Nothing comes up that was not there at the start. -/
theorem contains_of_mem_drawAt [EquivBEq α] (h₀ : ∀ l, (look₀ l).Lawful) {nows : List M} {p : M × α}
    (hp : p ∈ (drawAt look nows (start look₀ v)).1) : (v.read look₀).contains p.2 := by
  obtain ⟨-, c, hc, hx⟩ := mem_drawAt look hp
  rw [← hx]
  exact contains_of_mem_start h₀ c hc

/-- While the leaves hold all that they held at the start, nothing comes up twice: an item of the first operand of a
union is still there when its equal in the second comes up. -/
theorem distinct_drawAt [EquivBEq α] (h₀ : ∀ l, (look₀ l).Lawful) {nows : List M}
    (h : ∀ now ∈ nows, ∀ l, (look now l).Lawful ∧ ∀ x, (look₀ l).contains x → (look now l).contains x) :
    Distinct ((drawAt look nows (start look₀ v)).1.map (·.2)) := by
  induction v using View.induct_settled generalizing nows with
  | settled v hv =>
    rw [(drawAt_settled look look₀ hv nows).1]
    exact (View.lawful_read fun l _ => h₀ l).distinct.sublist (List.take_sublist _ _)
  | held holder v hne ih =>
    rw [start_held hne]
    exact ih h
  | unmodifiable v ih => exact ih h
  | union a b iha ihb =>
    obtain ⟨nows', hr, heq⟩ := drawAt_union look look₀ a b nows
    have hmem : ∀ {now}, now ∈ nows' → now ∈ nows := fun hm => List.mem_of_mem_drop (hr.mem_of_mem hm)
    rw [heq, List.map_append]
    refine List.pairwise_append.2 ⟨iha h, ?_, fun x hx y hy => ?_⟩
    · exact (ihb fun now hm => h now (hmem hm)).sublist (List.filter_sublist.map _)
    · obtain ⟨p, hp, rfl⟩ := List.mem_map.1 hx
      obtain ⟨q, hq, rfl⟩ := List.mem_map.1 hy
      obtain ⟨hq, hbar⟩ := List.mem_filter.1 hq
      have hnow := h q.1 (hmem (mem_drawAt look hq).1)
      have hstart : (a.read look₀).contains p.2 := contains_of_mem_drawAt look h₀ hp
      have hlater : (a.read (look q.1)).contains p.2 := View.contains_read_mono (fun l => (hnow l).2 p.2) hstart
      rw [Bool.eq_false_iff]
      intro hpq
      rw [← (View.lawful_read fun l _ => (hnow l).1).contains_congr hpq, hlater] at hbar
      cases hbar

/-- While the leaves hold nothing that they did not hold at the start, nothing is missed: what bars an item of the
second operand of a union was in the first operand at the start, and comes up there. -/
theorem covers_drawAt [EquivBEq α] (h₀ : ∀ l, (look₀ l).Lawful) {nows : List M}
    (h : ∀ now ∈ nows, ∀ l x, (look now l).contains x → (look₀ l).contains x)
    (hend : (drawAt look nows (start look₀ v)).2 = []) {x : α} (hx : (v.read look₀).contains x) :
    ((drawAt look nows (start look₀ v)).1.map (·.2)).contains x := by
  induction v using View.induct_settled generalizing nows with
  | settled v hv =>
    obtain ⟨hitems, hlen⟩ := drawAt_settled look look₀ hv nows
    rw [hitems, List.take_of_length_le (hlen hend), ← (View.lawful_read fun l _ => h₀ l).contains_eq]
    exact hx
  | held holder v hne ih =>
    rw [start_held hne] at hend ⊢
    exact ih h hend hx
  | unmodifiable v ih => exact ih h hend hx
  | union a b iha ihb =>
    obtain ⟨nows', hr, heq⟩ := drawAt_union look look₀ a b nows
    rw [heq] at hend ⊢
    obtain ⟨henda, hendb⟩ := List.append_eq_nil_iff.1 hend
    have hmem : ∀ {now}, now ∈ nows' → now ∈ nows := fun hm => List.mem_of_mem_drop (hr.mem_of_mem hm)
    have hxab : (a.read look₀).contains x || (b.read look₀).contains x := hx
    rw [List.map_append, List.contains_append, Bool.or_eq_true]
    by_cases hxa : (a.read look₀).contains x
    · exact .inl (iha h henda hxa)
    · right
      have hxb : (b.read look₀).contains x := by simpa [hxa] using hxab
      obtain ⟨y, hy, hxy⟩ := (elem_iff _ _).1 (ihb (fun now hm => h now (hmem hm)) (List.map_eq_nil_iff.1 hendb) hxb)
      obtain ⟨q, hq, rfl⟩ := List.mem_map.1 hy
      refine (elem_iff _ _).2 ⟨q.2, List.mem_map.2 ⟨q, List.mem_filter.2 ⟨hq, ?_⟩, rfl⟩, hxy⟩
      have hnow := h q.1 (hmem (mem_drawAt look hq).1)
      rw [Bool.not_eq_true', Bool.eq_false_iff]
      intro hbar
      have hstart : (a.read look₀).contains q.2 := View.contains_read_mono (fun l => hnow l q.2) hbar
      rw [← (View.lawful_read fun l _ => h₀ l).contains_congr hxy] at hstart
      exact hxa hstart

end

end Cursor

end GraphViews
