import GraphViews.Proofs.Draws
import GraphViews.Proofs.Within
/-!
# Going through a view while the store changes

Somebody goes through a view, and between one draw and the next the sets and graphs of the store are changed, in
any way. `passage` tells what comes up. A view without unions yields what it held at the start. A union yields what
its first operand yields and then what its second operand yields, except for what the first operand contains by
then; so when things are removed from the first operand an item can come up twice, and when things are added to it
an item can stay out.
-/

namespace GraphViews

variable {ν : Type} [BEq ν]

/-! ## Draws among changes -/

/-- What happens while somebody goes through a view: an item is drawn, or an object of the store is changed. -/
inductive Move (ν : Type) where
  | draw
  | change (m : Mutation ν)

/-- The second list has the changes of the first. It lacks the first `k` of its draws, and each later one it has once
or more. -/
inductive Redrawn : Nat → List (Move ν) → List (Move ν) → Prop
  | nil (k : Nat) : Redrawn k [] []
  | change (m : Mutation ν) {k : Nat} {ms ms' : List (Move ν)} (h : Redrawn k ms ms') :
    Redrawn k (.change m :: ms) (.change m :: ms')
  | skip {k : Nat} {ms ms' : List (Move ν)} (h : Redrawn k ms ms') : Redrawn (k + 1) (.draw :: ms) ms'
  | once {ms ms' : List (Move ν)} (h : Redrawn 0 ms ms') : Redrawn 0 (.draw :: ms) (.draw :: ms')
  | again {ms ms' : List (Move ν)} (h : Redrawn 0 (.draw :: ms) ms') : Redrawn 0 (.draw :: ms) (.draw :: ms')

namespace Store

variable {s : Store ν} {kind : ItemKind} {moves : List (Move ν)}

/-- The store at each draw. -/
def atDraws (s : Store ν) : List (Move ν) → List (Store ν)
  | [] => []
  | .draw :: moves => s :: s.atDraws moves
  | .change m :: moves => (s.change m).atDraws moves

/-- Whether every change relates the store before it to the store after it. -/
def Each (R : Store ν → Store ν → Prop) : Store ν → List (Move ν) → Prop
  | _, [] => True
  | s, .draw :: moves => Each R s moves
  | s, .change m :: moves => R s (s.change m) ∧ Each R (s.change m) moves

/-- What the draws yield, each item with the store at its draw, and what is left of the cursor, which was put at the
start of the view before the first move. -/
def draws (s : Store ν) (v : View (Leaf ν kind)) (moves : List (Move ν)) :
    List (Store ν × kind.Item ν) × Cursor (Leaf ν kind) (kind.Item ν) :=
  Cursor.drawAt (fun now => now.look) (s.atDraws moves) (Cursor.start s.look v)

/-- The items that the draws yield. -/
def drawn (s : Store ν) (v : View (Leaf ν kind)) (moves : List (Move ν)) : List (kind.Item ν) :=
  (s.draws v moves).1.map (·.2)

theorem Grown.atDraws (h : s.Grown) {now : Store ν} (hn : now ∈ s.atDraws moves) : now.Grown := by
  induction moves generalizing s with
  | nil => cases hn
  | cons move moves ih =>
    cases move with
    | draw =>
      rcases List.mem_cons.1 hn with rfl | hn
      · exact h
      · exact ih h hn
    | change m => exact ih (h.change m) hn

/-- What relates every two stores in a row relates the first to the store at each draw. -/
theorem Each.atDraws {R : Store ν → Store ν → Prop} (hrefl : ∀ s, R s s) (htrans : ∀ {s t u}, R s t → R t u → R s u)
    (h : Each R s moves) {now : Store ν} (hn : now ∈ s.atDraws moves) : R s now := by
  induction moves generalizing s with
  | nil => cases hn
  | cons move moves ih =>
    cases move with
    | draw =>
      rcases List.mem_cons.1 hn with rfl | hn
      · exact hrefl now
      · exact ih h hn
    | change m => exact htrans h.1 (ih h.2 hn)

theorem Each.of_forall {R : Store ν → Store ν → Prop} {P : Mutation ν → Prop}
    (hR : ∀ {s m}, s.Grown → P m → R s (s.change m)) (h : s.Grown) (hP : ∀ m, .change m ∈ moves → P m) :
    Each R s moves := by
  induction moves generalizing s with
  | nil => trivial
  | cons move moves ih =>
    cases move with
    | draw => exact ih h fun m hm => hP m (List.mem_cons_of_mem _ hm)
    | change m =>
      exact ⟨hR h (hP m List.mem_cons_self), ih (h.change m) fun m' hm => hP m' (List.mem_cons_of_mem _ hm)⟩

/-- Drawing again at some of the moments is a list of moves. -/
theorem exists_redrawn {k : Nat} {nows' : List (Store ν)} (h : Repeats ((s.atDraws moves).drop k) nows') :
    ∃ moves', Redrawn k moves moves' ∧ s.atDraws moves' = nows' := by
  induction moves generalizing s k nows' with
  | nil =>
    rw [atDraws, List.drop_nil] at h
    cases h
    exact ⟨[], .nil k, rfl⟩
  | cons move moves ih =>
    cases move with
    | change m =>
      obtain ⟨moves', hr, heq⟩ := ih h
      exact ⟨_, hr.change m, heq⟩
    | draw =>
      cases k with
      | succ k =>
        obtain ⟨moves', hr, heq⟩ := ih h
        exact ⟨moves', hr.skip, heq⟩
      | zero =>
        rw [atDraws, List.drop_zero] at h
        generalize hnows : s :: s.atDraws moves = nows at h
        induction h with
        | nil => cases hnows
        | once h =>
          obtain ⟨rfl, rfl⟩ := List.cons.inj hnows
          obtain ⟨moves', hr, rfl⟩ := ih (k := 0) h
          exact ⟨_, hr.once, rfl⟩
        | again h ih' =>
          obtain ⟨rfl, rfl⟩ := List.cons.inj hnows
          obtain ⟨moves', hr, rfl⟩ := ih' rfl
          exact ⟨_, hr.again, rfl⟩

/-! ## The whole story -/

/-- What comes up when somebody goes through the view `v`, from the store `s` on, with the given moves. -/
structure Passage (s : Store ν) (v : View (Leaf ν kind)) (moves : List (Move ν)) : Prop where
  /-- At the start the view is a set, with what its leaves contain. -/
  start : (s.read v).Lawful ∧ ∀ x, (s.read v).contains x ↔ ∃ l ∈ v.leaves, (s.look l).contains x
  /-- Whatever comes up was there at the start. -/
  present : ∀ x ∈ s.drawn v moves, (s.read v).contains x
  /-- With enough draws nothing is left. -/
  ends : (Cursor.start s.look v).length ≤ (s.atDraws moves).length → (s.draws v moves).2 = []
  passedOn : ∀ u, v = .unmodifiable u ∨ (∃ holder ≠ .cell, v = .held holder u) → s.draws v moves = s.draws u moves
  settled : v.settled → s.drawn v moves = (s.read v).items.take (s.atDraws moves).length
  union : ∀ a b, v = .union a b → ∃ moves', Redrawn (s.drawn a moves).length moves moves' ∧
    (s.draws v moves).1 =
      (s.draws a moves).1 ++ (s.draws b moves').1.filter (fun p => !(p.1.read a).contains p.2) ∧
    ((s.draws v moves).2 = [] ↔ (s.draws a moves).2 = [] ∧ (s.draws b moves').2 = [])
  /-- While things are only added, nothing comes up twice. -/
  adding : Each Within s moves → Distinct (s.drawn v moves)
  /-- While things are only removed, nothing is missed. -/
  removing : Each (fun s t => t.Within s) s moves → (s.draws v moves).2 = [] →
    ∀ x, (s.read v).contains x → ∃ y ∈ s.drawn v moves, x == y
  still : Each Eq s moves → s.drawn v moves = (s.read v).items.take (s.atDraws moves).length

variable [EquivBEq ν]

/-- Whatever happens to the sets and graphs of a store while somebody goes through a view. -/
theorem passage (h : s.Grown) (v : View (Leaf ν kind)) (moves : List (Move ν)) : s.Passage v moves where
  start := ⟨h.lawful_read v, View.contains_read s.look v⟩
  present x hx := by
    obtain ⟨p, hp, rfl⟩ := List.mem_map.1 hx
    exact Cursor.contains_of_mem_drawAt _ h.lawful_look hp
  ends hlen := by
    have hleft := Cursor.length_drawAt_le (fun now : Store ν => now.look) (s.atDraws moves) (Cursor.start s.look v)
    apply List.eq_nil_of_length_eq_zero
    rw [draws]
    omega
  passedOn := by
    rintro u (rfl | ⟨holder, hholder, rfl⟩)
    · rfl
    · rw [draws, draws, Cursor.start_held hholder]
  settled hv := (Cursor.drawAt_settled _ _ hv _).1
  union := by
    rintro a b rfl
    obtain ⟨nows', hr, heq⟩ := Cursor.drawAt_union (fun now : Store ν => now.look) s.look a b (s.atDraws moves)
    obtain ⟨moves', hm, rfl⟩ := exists_redrawn hr
    refine ⟨moves', by simpa [drawn, draws] using hm, ?_, ?_⟩
    · rw [draws, heq]
      rfl
    · rw [draws, heq]
      simp [draws]
  adding hadd := by
    refine Cursor.distinct_drawAt _ h.lawful_look fun now hn l => ?_
    have hnow : now.Grown := h.atDraws hn
    have hwithin : s.Within now := hadd.atDraws Within.refl Within.trans hn
    exact ⟨hnow.lawful_look l, hwithin.look h hnow l⟩
  removing hremove hend x hx := by
    refine (elem_iff _ _).1 (Cursor.covers_drawAt _ h.lawful_look (fun now hn l => ?_) hend hx)
    have hwithin : now.Within s :=
      Each.atDraws (R := fun s t => t.Within s) Within.refl (fun hst htu => htu.trans hst) hremove hn
    exact hwithin.look (h.atDraws hn) h l
  still hstill := by
    have hsteady : ∀ now ∈ s.atDraws moves, ∀ c ∈ Cursor.start s.look v, c.admitted now.look = c.admitted s.look := by
      intro now hn c _
      rw [← hstill.atDraws (fun _ => rfl) Eq.trans hn]
    rw [drawn, draws, (Cursor.drawAt_steady _ s.look hsteady).1, Cursor.drain_start]
    rfl

/-- A stored set and the nodes of a graph, which hold one node between them, written in two ways. Taken out of the set
after it came up, the node comes up again. A node put into the set before it comes up stays out. -/
theorem passage_overlapping :
    let x : Node Atom := .pair (.unordered (.atom (.integer 1)) (.atom (.integer 2)))
    let x' : Node Atom := .pair (.unordered (.atom (.integer 2)) (.atom (.integer 1)))
    let y : Node Atom := .atom (.integer 3)
    let g : AnyGraph (Node Atom) := ⟨.undirected, ({ selfLoops := true } : Settings .undirected).build⟩
    let set : ItemSet (ItemKind.node.Item (Node Atom)) := ItemSet.ofList [x]
    let s := ((({} : Store (Node Atom)).addGraph g).addSet set).change (.graph 0 (.insertEdge .checked x' y))
    let v : View (Leaf (Node Atom) .node) := .union (.held .handle (.held .cell (.leaf (.stored .node 0))))
      (.unmodifiable (.leaf (.nodes 0)))
    let removing : List (Move (Node Atom)) := [.draw, .change (.set .node 0 (.remove x')), .draw, .draw, .draw]
    let adding : List (Move (Node Atom)) := [.draw, .change (.set .node 0 (.add y)), .draw]
    s.Grown ∧ (∃ z ∈ s.drawn v removing, y == z) ∧ s.drawn v removing = [x, y, x'] ∧
      Distinct (s.drawn v adding) ∧ s.drawn v adding = [x] := by
  intro x x' y g set s v removing adding
  have hs : s.Grown := ((Grown.empty.build .undirected { selfLoops := true }).addSet set).change _
  have hremoving : Each (fun s t => t.Within s) s removing := by
    refine Each.of_forall (P := fun m => m.inserts = false) (fun hs hm => hs.change_within hm) hs fun m hm => ?_
    simp [removing] at hm
    rw [hm]
    rfl
  have hadding : Each Within s adding := by
    refine Each.of_forall (P := fun m => m.inserts) (fun _ hm => within_change _ hm) hs fun m hm => ?_
    simp [adding] at hm
    rw [hm]
    rfl
  exact ⟨hs, (passage hs v removing).removing hremoving rfl y rfl, rfl, (passage hs v adding).adding hadding, rfl⟩

end Store

end GraphViews
