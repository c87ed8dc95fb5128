import GraphViews.Proofs.Agreement
import GraphViews.View.Cursor
/-!
# Loops over a set that a graph hands out

A cursor over such a set takes all its items at the start, in whatever order they come up then, and nothing bars one of
them later. So a loop that changes the graph for each item is a run over a list that is fixed at its start
(`loopOver_start`), though the set itself follows every change. What the steps of a loop do is shown with an invariant
between the graph and the items still to come (`eachStep_of_invariant`).
-/

namespace GraphViews

/-- The list has the items of the set, each once, in any order and however they are written. -/
structure Reading.Lists {α : Type} [BEq α] (r : Reading α) (xs : List α) : Prop where
  distinct : Distinct xs
  contains_eq : ∀ y, r.contains y = xs.contains y

/-- There is nothing in the set, whichever question is asked. -/
structure Reading.Vacant {α : Type} (r : Reading α) : Prop where
  size : r.size = 0
  isEmpty : r.isEmpty = true
  items : r.items = []
  contains : ∀ x, r.contains x = false

namespace Reading

variable {α : Type} [BEq α] [EquivBEq α] {r : Reading α}

/-- Of the items still to come, the first is there, and there is none like it after it. -/
theorem Lists.head {x : α} {xs : List α} (h : r.Lists (x :: xs)) : r.contains x ∧ xs.contains x = false := by
  refine ⟨?_, ?_⟩
  · rw [h.contains_eq]
    exact elem_of_mem List.mem_cons_self
  · rw [List.contains_eq_any_beq, List.any_eq_false]
    intro y hy
    rw [(List.pairwise_cons.1 h.distinct).1 y hy]
    exact Bool.false_ne_true

theorem Lawful.size_of_lists (hr : r.Lawful) {xs : List α} (h : r.Lists xs) : r.size = xs.length :=
  hr.hasCount.unique (.of_distinct h.distinct fun y => (h.contains_eq y).symm)

theorem Lawful.vacant (hr : r.Lawful) (h : r.Lists []) : r.Vacant := by
  have hsize : r.size = 0 := hr.size_of_lists h
  refine ⟨hsize, ?_, ?_, h.contains_eq⟩
  · rw [hr.isEmpty_eq, hsize]
    rfl
  · rw [hr.size_eq] at hsize
    exact List.length_eq_zero_iff.1 hsize

end Reading

namespace Graph

variable {ν α : Type} [BEq ν] {d : EdgeKind}

/-! ## What comes up -/

/-- Going through the set may bring up `xs`, as the records and the items of their sets come up in any order. -/
def Shows (g : Graph ν d) (set : Graph ν d → Reading α) (xs : List α) : Prop :=
  ∃ g', g.Rearranged g' ∧ xs.Perm (set g').items

/-- Graphs hand out the set: it is lawful at every sound graph, and its items do not depend on any order. -/
structure HandsOut [BEq α] (set : Graph ν d → Reading α) : Prop where
  lawful : ∀ {g}, g.Sound → (set g).Lawful
  contains_eq : ∀ {g g'}, g.Sound → g.Rearranged g' → ∀ y, (set g').contains y = (set g).contains y

theorem shows_of_perm [PartialEquivBEq ν] (g : Graph ν d) {set : Graph ν d → Reading α} {xs : List α}
    (h : xs.Perm (set g).items) : g.Shows set xs :=
  ⟨g, .of_perm (.refl _), h⟩

theorem Shows.lists [BEq α] [EquivBEq α] {g : Graph ν d} {set : Graph ν d → Reading α} {xs : List α}
    (h : g.Shows set xs) (hset : HandsOut set) (hg : g.Sound) : (set g).Lists xs := by
  obtain ⟨g', hr, hp⟩ := h
  have hlaw : (set g').Lawful := hset.lawful (hg.rearranged hr)
  refine ⟨?_, fun y => ?_⟩
  · exact hlaw.distinct.perm hp.symm fun h => by rw [BEq.comm, h]
  · rw [← hset.contains_eq hg hr, hlaw.contains_eq, hp.contains_eq]

theorem handsOut_nodes : HandsOut (nodes : Graph ν d → Reading ν) where
  lawful _ := lawful_nodes _
  contains_eq _ hr := hr.hasNode_eq

section
variable [EquivBEq ν]

theorem handsOut_edges : HandsOut (edges : Graph ν d → Reading (Ends ν)) where
  lawful hg := hg.lawful_edges
  contains_eq {g g'} _ hr p := by
    change g'.hasPair p = g.hasPair p
    rw [hasPair, hasPair, hr.hasEdge_eq]

theorem handsOut_incident (x : ν) : HandsOut fun g : Graph ν d => g.incident x where
  lawful hg := hg.lawful_incident x
  contains_eq hg hr p := by
    rw [hg.contains_incident, (hg.rearranged hr).contains_incident, hasPair, hasPair, hr.hasEdge_eq]

theorem handsOut_neighbors (side : Side) (x : ν) : HandsOut fun g : Graph ν d => g.neighbors side x where
  lawful _ := lawful_neighbors _ side x
  contains_eq _ hr y := by
    cases side with
    | adjacent => rw [contains_adjacent, contains_adjacent, hr.hasBackEdge_eq, hr.hasEdge_eq]
    | predecessors => rw [contains_predecessors, contains_predecessors, hr.hasBackEdge_eq]
    | successors => rw [contains_successors, contains_successors, hr.hasEdge_eq]

end

/-! ## Step by step -/

/-- Draws from a cursor until nothing comes up any more, and makes the change `act x` for each item `x` before it draws
again, when the set answers as the graph is then. Gives what came up and the graph in the end. -/
def loopOver (set : Graph ν d → Reading α) (act : α → Change ν) : Graph ν d → Cursor Unit α → List α × Graph ν d
  | g, [] => ([], g)
  | g, c :: rest =>
    if c.admitted fun _ => set g then
      let (xs, last) := loopOver set act (g.change (act c.item)).state rest
      (c.item :: xs, last)
    else loopOver set act g rest

/-- A loop over a set brings up what the set had at the start, whatever is changed on the way. -/
theorem loopOver_start (set : Graph ν d → Reading α) (act : α → Change ν) (g : Graph ν d) (r : Reading α) :
    loopOver set act g (Cursor.start (fun _ => r) (.leaf ())) = (r.items, (g.run (r.items.map act)).1) := by
  rw [Cursor.start]
  induction r.items generalizing g with
  | nil => rfl
  | cons x xs ih =>
    have hadmitted : (⟨x, []⟩ : Candidate Unit α).admitted (fun _ => set g) = true := rfl
    rw [List.map_cons, loopOver, if_pos hadmitted, ih]
    rfl

/-- At every step of the loop that makes the change `act x` for each item `x`, the graph before it, the item and the
effect are as `P` says. -/
def EachStep (act : α → Change ν) (P : Graph ν d → α → Effect ν (Graph ν d) → Prop) : Graph ν d → List α → Prop
  | _, [] => True
  | g, x :: xs => P g x (g.change (act x)) ∧ EachStep act P (g.change (act x)).state xs

variable {act : α → Change ν} {P : Graph ν d → α → Effect ν (Graph ν d) → Prop}

/-- An invariant between the graph and the items still to come, which each step keeps, holds at the end, and what it
implies of each step is so of all. -/
theorem eachStep_of_invariant (I : Graph ν d → List α → Prop)
    (hstep : ∀ g x xs, I g (x :: xs) → P g x (g.change (act x)) ∧ I (g.change (act x)).state xs)
    {g : Graph ν d} {xs : List α} (h : I g xs) : EachStep act P g xs ∧ I (g.run (xs.map act)).1 [] := by
  induction xs generalizing g with
  | nil => exact ⟨trivial, h⟩
  | cons x xs ih =>
    obtain ⟨hx, hI⟩ := hstep g x xs h
    obtain ⟨hxs, hlast⟩ := ih hI
    exact ⟨⟨hx, hxs⟩, hlast⟩

theorem EachStep.of_mem_effects {Q : Effect ν (Graph ν d) → Prop} {g : Graph ν d} {xs : List α}
    (h : EachStep act (fun _ _ e => Q e) g xs) : ∀ e ∈ (g.run (xs.map act)).2, Q e := by
  induction xs generalizing g with
  | nil => exact fun e he => absurd he List.not_mem_nil
  | cons x xs ih => exact List.forall_mem_cons.2 ⟨h.1, ih h.2⟩

end Graph

end GraphViews
