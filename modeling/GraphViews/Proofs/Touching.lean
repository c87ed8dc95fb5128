import GraphViews.ItemSet.Change
import GraphViews.Proofs.Forms
import Mathlib.Data.List.Induction
/-!
# What a set remembers

A change to a set comes to touches of single items, one after another, also where it is given many items. Of all its
touches a set remembers the last additions: `contains_touchAll` and `form?_touchAll` tell from the touches what a set
holds and how it writes it. A change that answers answers truly: with yes if the set is larger or smaller than before,
with no if it is the same set (`told_change`).
-/

namespace GraphViews

variable {α : Type}

/-! ## Touches -/

/-- What is done to an item of a set, or to all of them. -/
inductive Touch (α : Type) where
  | put (x : α)
  | take (x : α)
  | clear

/-- What a change does to one item after another. -/
def SetChange.touches : SetChange α → List (Touch α)
  | add x => [.put x]
  | remove x => [.take x]
  | addAll xs | extend xs => xs.map .put
  | removeAll xs => xs.map .take
  | clear => [.clear]

/-! ## Item by item -/

/-- Makes a change with each item in order, and tells whether any of them changed something. -/
def eachItem {σ : Type} (f : σ → α → Bool × σ) (s : σ) (xs : List α) : Bool × σ :=
  xs.foldl (fun r x => let (changed, s) := f r.2 x; (changed || r.1, s)) (false, s)

theorem eachItem_nil {σ : Type} (f : σ → α → Bool × σ) (s : σ) : eachItem f s [] = (false, s) := rfl

theorem eachItem_cons {σ : Type} (f : σ → α → Bool × σ) (s : σ) (x : α) (xs : List α) :
    eachItem f s (x :: xs) = ((f s x).1 || (eachItem f (f s x).2 xs).1, (eachItem f (f s x).2 xs).2) := by
  -- What the flag is at first, it is at the end, or more.
  have hflag : ∀ (b : Bool) (s : σ),
      xs.foldl (fun r x => let (changed, s) := f r.2 x; (changed || r.1, s)) (b, s) =
        (b || (eachItem f s xs).1, (eachItem f s xs).2) := by
    induction xs with
    | nil => simp [eachItem]
    | cons y ys ih =>
      intro b s
      rw [eachItem, List.foldl_cons, List.foldl_cons, ih, ih]
      simp [Bool.or_left_comm, Bool.or_assoc]
  rw [eachItem, List.foldl_cons, hflag, Bool.or_false]

/-- What every single change tells truly, all of them together tell truly. -/
theorem eachItem_told {σ : Type} {f : σ → α → Bool × σ} {R : σ → σ → Prop} (htrans : ∀ {s t u}, R s t → R t u → R s u)
    (hf : ∀ s x, if (f s x).1 then R s (f s x).2 else (f s x).2 = s) (s : σ) (xs : List α) :
    if (eachItem f s xs).1 then R s (eachItem f s xs).2 else (eachItem f s xs).2 = s := by
  induction xs generalizing s with
  | nil => rfl
  | cons x xs ih =>
    have hfirst := hf s x
    have hrest := ih (f s x).2
    rw [eachItem_cons]
    cases hx : (f s x).1 <;> cases hxs : (eachItem f (f s x).2 xs).1 <;> simp only [hx, hxs] at hfirst hrest
    · exact hrest.trans hfirst
    · rw [hfirst] at hrest ⊢
      exact hrest
    · rw [hrest]
      exact hfirst
    · exact htrans hfirst hrest

variable [BEq α]

namespace Touch

/-- Whether an item equal to `x` is added. -/
def adds (t : Touch α) (x : α) : Bool :=
  match t with
  | put y => y == x
  | take _ | clear => false

/-- Whether the item equal to `x` is removed, alone or with all others. -/
def removes (t : Touch α) (x : α) : Bool :=
  match t with
  | put _ => false
  | take y => y == x
  | clear => true

/-- At some moment `P` holds of the touches before it and of the touch made then; from then on `x` is not removed. -/
def Since (P : List (Touch α) → Touch α → Prop) (x : α) (ts : List (Touch α)) : Prop :=
  ∃ before t after, ts = before ++ t :: after ∧ P before t ∧ ∀ u ∈ after, u.removes x = false

/-- An item equal to `x` was added after the last removal. -/
def Present (ts : List (Touch α)) (x : α) : Prop := Since (fun _ t => t.adds x) x ts

/-- Since `x` was last absent, the first item added that equals it is written as `k`. -/
def PresentAs (ts : List (Touch α)) (x k : α) : Prop :=
  Since (fun before t => t = .put k ∧ x == k ∧ ¬Present before x) x ts

theorem since_nil (P : List (Touch α) → Touch α → Prop) (x : α) : ¬Since P x [] := by
  rintro ⟨before, t, after, h, -⟩
  simp at h

theorem since_concat {P : List (Touch α) → Touch α → Prop} {x : α} {ts : List (Touch α)} {t : Touch α} :
    Since P x (ts ++ [t]) ↔ P ts t ∨ (Since P x ts ∧ t.removes x = false) := by
  constructor
  · rintro ⟨before, u, after, h, hu, hafter⟩
    rcases List.eq_nil_or_concat after with rfl | ⟨after, v, rfl⟩
    · obtain ⟨rfl, hut⟩ := List.append_inj' h rfl
      cases hut
      exact .inl hu
    · rw [List.concat_eq_append, ← List.cons_append, ← List.append_assoc] at h
      obtain ⟨rfl, hvt⟩ := List.append_inj' h rfl
      cases hvt
      rw [List.concat_eq_append] at hafter
      exact .inr ⟨⟨before, u, after, rfl, hu, fun w hw => hafter w (List.mem_append_left _ hw)⟩, hafter t (by simp)⟩
  · rintro (h | ⟨⟨before, u, after, rfl, hu, hafter⟩, ht⟩)
    · exact ⟨ts, t, [], rfl, h, by simp⟩
    · refine ⟨before, u, after ++ [t], by simp, hu, fun w hw => ?_⟩
      rcases List.mem_append.1 hw with hw | hw
      · exact hafter w hw
      · rwa [List.mem_singleton.1 hw]

end Touch

namespace ItemSet

/-- The set after a touch. -/
def touch (s : ItemSet α) : Touch α → ItemSet α
  | .put x => s.insert x
  | .take x => s.erase x
  | .clear => .empty

/-- The set after the touches, made in order. -/
def touchAll (s : ItemSet α) (ts : List (Touch α)) : ItemSet α := ts.foldl touch s

theorem touchAll_append (s : ItemSet α) (ts us : List (Touch α)) :
    s.touchAll (ts ++ us) = (s.touchAll ts).touchAll us :=
  List.foldl_append

theorem touchAll_concat (s : ItemSet α) (ts : List (Touch α)) (t : Touch α) :
    s.touchAll (ts ++ [t]) = (s.touchAll ts).touch t := List.foldl_concat ..

section
variable [EquivBEq α]

theorem contains_touch (s : ItemSet α) (t : Touch α) (x : α) :
    (s.touch t).contains x = (t.adds x || (s.contains x && !t.removes x)) := by
  cases t with
  | put y => simp [touch, Touch.adds, Touch.removes, contains_insert]
  | take y => simp [touch, Touch.adds, Touch.removes, contains_erase, Bool.and_comm]
  | clear => simp [touch, Touch.adds, Touch.removes]

/-- An item that a touch brings in is written as the touch writes it, and one that stays as before. -/
theorem form?_touch (s : ItemSet α) (t : Touch α) (x k : α) : form? (s.touch t).items x = some k ↔
    (t = .put k ∧ x == k ∧ s.contains x = false) ∨ (form? s.items x = some k ∧ t.removes x = false) := by
  have hsome : (form? s.items x).isSome = s.contains x := isSome_form? s.items x
  cases t with
  | put y =>
    rw [touch, form?_insert, form?_singleton, BEq.comm, Option.or_eq_some_iff]
    cases hx : form? s.items x with
    | some z =>
      rw [hx] at hsome
      simp [← hsome, Touch.removes]
    | none =>
      rw [hx] at hsome
      simp only [← hsome, Touch.removes, Touch.put.injEq]
      constructor
      · rintro (h | ⟨-, h⟩)
        · cases h
        · split at h
          · cases h
            exact .inl ⟨rfl, ‹_›, rfl⟩
          · cases h
      · rintro (⟨rfl, h, -⟩ | ⟨h, -⟩)
        · exact .inr ⟨trivial, if_pos h⟩
        · cases h
  | take y =>
    rw [touch, items_erase, form?_filter_not, Touch.removes]
    cases y == x <;> simp
  | clear => simp [touch, Touch.removes, form?, empty]

/-- A set holds what was added after its last removal. -/
theorem contains_touchAll (ts : List (Touch α)) (x : α) : (empty.touchAll ts).contains x ↔ Touch.Present ts x := by
  induction ts using List.reverseRecOn with
  | nil => simp [touchAll, Touch.Present, Touch.since_nil]
  | append_singleton ts t ih =>
    rw [touchAll_concat, contains_touch, Touch.Present, Touch.since_concat, ← Touch.Present, ← ih]
    simp

/-- A set writes an item as it was first added since it was last absent. -/
theorem form?_touchAll (ts : List (Touch α)) (x k : α) :
    form? (empty.touchAll ts).items x = some k ↔ Touch.PresentAs ts x k := by
  induction ts using List.reverseRecOn with
  | nil => simp [touchAll, Touch.PresentAs, Touch.since_nil, form?, empty]
  | append_singleton ts t ih =>
    rw [touchAll_concat, form?_touch, Touch.PresentAs, Touch.since_concat, ← Touch.PresentAs, ← ih,
      ← contains_touchAll, Bool.not_eq_true]

end

/-! ## Changes -/

theorem addAll_eq_eachItem (s : ItemSet α) (xs : List α) : s.addAll xs = eachItem add s xs := rfl

theorem removeAll_eq_eachItem (s : ItemSet α) (xs : List α) : s.removeAll xs = eachItem remove s xs := rfl

theorem extend_eq_touchAll (s : ItemSet α) (xs : List α) : s.extend xs = s.touchAll (xs.map .put) := by
  rw [touchAll, List.foldl_map]
  rfl

/-- The set after a change is the set after its touches. -/
theorem state_change (s : ItemSet α) (c : SetChange α) : (s.change c).2 = s.touchAll c.touches := by
  cases c with
  | add x | remove x | clear => rfl
  | addAll xs => exact (s.snd_addAll xs).trans (s.extend_eq_touchAll xs)
  | extend xs => exact s.extend_eq_touchAll xs
  | removeAll xs =>
    have herase : (s.removeAll xs).2 = xs.foldl erase s := (List.foldl_hom Prod.snd fun _ _ => rfl).symm
    rw [SetChange.touches, touchAll, List.foldl_map]
    exact herase

theorem add_told (s : ItemSet α) (x : α) : if (s.add x).1 then s.size < (s.add x).2.size else (s.add x).2 = s := by
  cases h : s.contains x with
  | true => simp [add, h, insert_of_contains]
  | false => simp [add, h, size_insert]

theorem remove_told [EquivBEq α] (s : ItemSet α) (x : α) :
    if (s.remove x).1 then (s.remove x).2.size < s.size else (s.remove x).2 = s := by
  cases h : s.contains x with
  | false => simp [remove, h, erase_of_not_contains]
  | true =>
    have hpos := size_pos_of_contains h
    simp only [remove, h, if_true, size_erase]
    omega

/-- A change answers with yes if the set is larger or smaller than before, and with no if it is the same set. -/
theorem told_change [EquivBEq α] (s : ItemSet α) (c : SetChange α) {b : Bool} (h : (s.change c).1 = some b) :
    if b then (s.change c).2.size ≠ s.size else (s.change c).2 = s := by
  have hmono : ∀ {b : Bool} {p q r : Prop}, (p → q) → (if b then p else r) → if b then q else r := by
    intro b p q r hpq
    cases b with
    | false => exact id
    | true => exact hpq
  cases c with
  | add x =>
    cases h
    exact hmono Nat.ne_of_gt (s.add_told x)
  | addAll xs =>
    cases h
    exact hmono Nat.ne_of_gt (eachItem_told (R := fun s t : ItemSet α => s.size < t.size) Nat.lt_trans add_told s xs)
  | remove x =>
    cases h
    exact hmono Nat.ne_of_lt (s.remove_told x)
  | removeAll xs =>
    cases h
    exact hmono Nat.ne_of_lt
      (eachItem_told (R := fun s t : ItemSet α => t.size < s.size) (fun h k => Nat.lt_trans k h) remove_told s xs)
  | extend xs | clear => cases h

/-- The answer tells whether the size changed, and whether the contents did. -/
theorem told_change_iff [EquivBEq α] (s : ItemSet α) (c : SetChange α) {b : Bool} (h : (s.change c).1 = some b) :
    (b ↔ (s.change c).2.size ≠ s.size) ∧ (b ↔ ∃ x, (s.change c).2.contains x ≠ s.contains x) := by
  have htold := s.told_change c h
  cases b with
  | false =>
    have hsame : (s.change c).2 = s := htold
    simp [hsame]
  | true =>
    have hsize : (s.change c).2.size ≠ s.size := htold
    refine ⟨by simpa using hsize, ?_⟩
    by_contra hnone
    have hcontains : ∀ x, (s.change c).2.contains x = s.contains x := by simpa using hnone
    exact hsize ((s.change c).2.hasCount.unique (s.hasCount.congr hcontains))

/-! ## Runs -/

/-- Makes the changes in order; gives the set after the last and what each told. -/
def run (s : ItemSet α) : List (SetChange α) → ItemSet α × List (Option Bool)
  | [] => (s, [])
  | c :: cs =>
    let (told, next) := s.change c
    let (last, answers) := run next cs
    (last, told :: answers)

/-- A change with many items comes to a run of changes with one. -/
theorem eachItem_eq_run {f : ItemSet α → α → Bool × ItemSet α} {g : α → SetChange α}
    (hg : ∀ s x, s.change (g x) = (some (f s x).1, (f s x).2)) (s : ItemSet α) (xs : List α) :
    eachItem f s xs = ((s.run (xs.map g)).2.contains (some true), (s.run (xs.map g)).1) := by
  induction xs generalizing s with
  | nil => rfl
  | cons x xs ih =>
    rw [eachItem_cons, ih, List.map_cons, run, hg]
    cases (f s x).1 <;> simp

/-- The set after a run is the set after the touches of all its changes. -/
theorem fst_run (s : ItemSet α) (cs : List (SetChange α)) :
    (s.run cs).1 = s.touchAll (cs.flatMap SetChange.touches) := by
  induction cs generalizing s with
  | nil => rfl
  | cons c cs ih => rw [run, List.flatMap_cons, touchAll_append, ← state_change, ih]

/-! ## A set and its history -/

/-- All touches of a set that was made of some items and then changed. -/
def history (made : List α) (cs : List (SetChange α)) : List (Touch α) :=
  made.map .put ++ cs.flatMap SetChange.touches

/-- The set is told by its history, and tells truly what the next change does to it. -/
structure ToldBy (made : List α) (cs : List (SetChange α)) (set : ItemSet α) : Prop where
  contains : ∀ x, set.contains x ↔ Touch.Present (history made cs) x
  /-- The size is the number of present items, equal ones counted once. -/
  size : ∀ p : α → Bool, (∀ x, p x ↔ Touch.Present (history made cs) x) → HasCount p set.size
  form : ∀ x k, form? set.items x = some k ↔ Touch.PresentAs (history made cs) x k
  /-- Adding or removing one item answers whether it was there before or is there after, but not both. -/
  single : ∀ x, ∀ c ∈ [SetChange.add x, .remove x],
    (set.change c).1 = some (set.contains x != (set.change c).2.contains x)
  /-- Adding or removing many items goes through all of them. -/
  addAll : ∀ xs, set.change (.addAll xs) =
    (some ((set.run (xs.map .add)).2.contains (some true)), (set.run (xs.map .add)).1)
  removeAll : ∀ xs, set.change (.removeAll xs) =
    (some ((set.run (xs.map .remove)).2.contains (some true)), (set.run (xs.map .remove)).1)
  /-- An answer is yes exactly when the size changes, which is exactly when the contents do. -/
  answer : ∀ c b, (set.change c).1 = some b →
    (b ↔ (set.change c).2.size ≠ set.size) ∧ (b ↔ ∃ x, (set.change c).2.contains x ≠ set.contains x)
  extend : ∀ xs, set.change (.extend xs) = (none, (set.change (.addAll xs)).2)

theorem toldBy_run [EquivBEq α] (made : List α) (cs : List (SetChange α)) :
    ToldBy made cs ((ofList made).run cs).1 := by
  have hset : ((ofList made).run cs).1 = empty.touchAll (history made cs) := by
    rw [fst_run, history, touchAll_append, ofList, extend_eq_touchAll]
  generalize ((ofList made).run cs).1 = set at hset
  have hcontains : ∀ x, set.contains x ↔ Touch.Present (history made cs) x := fun x => by rw [hset, contains_touchAll]
  exact {
    contains := hcontains
    size := fun p hp => set.hasCount.congr fun x => by rw [Bool.eq_iff_iff, hp, hcontains]
    form := fun x k => by rw [hset, form?_touchAll]
    single := by
      intro x c hc
      simp only [List.mem_cons, List.not_mem_nil, or_false] at hc
      rcases hc with rfl | rfl
      · simp [change, add]
      · simp [change, remove]
    addAll := fun xs => by
      rw [change, addAll_eq_eachItem, eachItem_eq_run (g := .add) fun _ _ => rfl]
    removeAll := fun xs => by
      rw [change, removeAll_eq_eachItem, eachItem_eq_run (g := .remove) fun _ _ => rfl]
    answer := fun c b => set.told_change_iff c
    extend := fun xs => by rw [change, change, snd_addAll] }

end ItemSet

end GraphViews
