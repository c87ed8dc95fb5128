import GraphViews.Proofs.Within
/-!
# Objects keep to themselves

In a store with any number of graphs and sets, and with views that share them in any way, a mutation changes one
object. What an object comes to in the course of many mutations depends on those of them that change it
(`changeAll_at`), and what a view answers depends on the objects that its leaves refer to (`read_congr_objects`). A
copy is another object, so it and the original part for good.
-/

namespace GraphViews

/-! ## What refers to what -/

/-- An object of a store, named by its number. -/
inductive Object where
  | graph (id : Nat)
  | set (kind : ItemKind) (id : Nat)
  deriving DecidableEq

variable {ν : Type} {kind : ItemKind}

/-- The object that a mutation changes. -/
def Mutation.target : Mutation ν → Object
  | graph id _ => .graph id
  | set kind id _ => .set kind id

/-- The object that a leaf refers to. -/
def Leaf.object : {kind : ItemKind} → Leaf ν kind → Object
  | _, stored kind id => .set kind id
  | _, nodes id | _, neighbors id _ _ | _, edges id | _, incident id _ => .graph id

/-- Whether a view refers to an object, itself or through the views that it is made of. -/
def View.refersTo (v : View (Leaf ν kind)) (o : Object) : Bool := v.leaves.any (·.object == o)

theorem View.refersTo_of_mem {v : View (Leaf ν kind)} {l : Leaf ν kind} (h : l ∈ v.leaves) : v.refersTo l.object :=
  List.any_eq_true.2 ⟨l, h, BEq.rfl⟩

namespace Store

variable [BEq ν]

/-- The two stores have the same object at a number. -/
def SameAt (s t : Store ν) : Object → Prop
  | .graph id => s.graphs[id]? = t.graphs[id]?
  | .set kind id => (s.sets kind)[id]? = (t.sets kind)[id]?

variable {s t u : Store ν} {m : Mutation ν} {o : Object}

theorem SameAt.refl (s : Store ν) (o : Object) : s.SameAt s o := by
  cases o <;> exact Eq.refl _

theorem SameAt.symm (h : s.SameAt t o) : t.SameAt s o := by
  cases o <;> exact Eq.symm h

theorem SameAt.trans (h : s.SameAt t o) (k : t.SameAt u o) : s.SameAt u o := by
  cases o <;> exact Eq.trans h k

theorem SameAt.graphs {id : Nat} (h : s.SameAt t (.graph id)) : s.graphs[id]? = t.graphs[id]? := h

theorem SameAt.sets {id : Nat} (h : s.SameAt t (.set kind id)) : (s.sets kind)[id]? = (t.sets kind)[id]? := h

/-! ## Reading depends on the objects referred to -/

theorem SameAt.look {l : Leaf ν kind} (h : s.SameAt t l.object) : s.look l = t.look l := by
  cases l <;> simp_all [SameAt, Leaf.object, Store.look]

theorem read_congr_objects {v : View (Leaf ν kind)} (h : ∀ l ∈ v.leaves, s.SameAt t l.object) : s.read v = t.read v :=
  View.read_congr fun l hl => (h l hl).look

theorem collect_eq (s : Store ν) (v : View (Leaf ν kind)) : s.collect v = (s.read v).items := Cursor.drain_start s.look v

/-! ## Mutations act object by object -/

theorem change_at (h : s.SameAt t m.target) : (s.change m).SameAt (t.change m) m.target := by
  cases m with
  | graph id c =>
    unfold SameAt Mutation.target
    simp only [getElem?_change_graph, h.graphs]
  | set kind id c =>
    unfold SameAt Mutation.target
    simp only [getElem?_change_set, h.sets]

theorem change_other (h : m.target ≠ o) : (s.change m).SameAt s o := by
  cases m with
  | graph id c =>
    simp only [change]
    split
    · exact .refl s o
    · cases o with
      | graph id' =>
        apply getElem?_setGraph_of_ne
        rintro rfl
        exact h rfl
      | set kind' id' => simp only [SameAt, sets_setGraph]
  | set kind id c =>
    simp only [change]
    split
    · exact .refl s o
    · cases o with
      | graph id' => simp only [SameAt, graphs_setSet]
      | set kind' id' =>
        apply sets_setSet_of_ne
        rintro ⟨rfl, rfl⟩
        exact h rfl

/-- Makes the mutations in order. -/
def changeAll (s : Store ν) (ms : List (Mutation ν)) : Store ν := ms.foldl change s

/-- What becomes of an object is told by the mutations of this object. Others do not matter, whether they are made or
left out. -/
theorem changeAll_at {p : Mutation ν → Bool} (hp : ∀ m, m.target = o → p m) (h : s.SameAt t o)
    (ms : List (Mutation ν)) : (s.changeAll ms).SameAt (t.changeAll (ms.filter p)) o := by
  induction ms generalizing s t with
  | nil => exact h
  | cons m ms ih =>
    by_cases hm : m.target = o
    · rw [List.filter_cons_of_pos (hp m hm)]
      subst hm
      exact ih (change_at h)
    · have hs : (s.change m).SameAt t o := (change_other hm).trans h
      by_cases hpm : p m
      · rw [List.filter_cons_of_pos hpm]
        exact ih (hs.trans (change_other hm).symm)
      · rw [List.filter_cons_of_neg hpm]
        exact ih hs

theorem changeAll_other {ms : List (Mutation ν)} (h : ∀ m ∈ ms, m.target ≠ o) : (s.changeAll ms).SameAt s o := by
  have hsame := changeAll_at (p := fun m => m.target == o) (fun m hm => by simp [hm]) (.refl s o) ms
  rwa [List.filter_eq_nil_iff.2 fun m hm => by simpa using h m hm] at hsame

theorem changeAll_missing_graph (s : Store ν) {id : Nat} (hg : s.graphs[id]? = none) (cs : List (Change ν)) :
    s.changeAll (cs.map (.graph id)) = s := by
  induction cs with
  | nil => rfl
  | cons c cs ih =>
    have hchange : s.change (.graph id c) = s := by simp only [change, hg]
    rw [List.map_cons, changeAll, List.foldl_cons, hchange]
    exact ih

/-- Changing a graph many times puts the graph after the last change in its place. -/
theorem changeAll_graph (s : Store ν) {id : Nat} {g : AnyGraph ν} (hg : s.graphs[id]? = some g) (cs : List (Change ν)) :
    s.changeAll (cs.map (.graph id)) = s.setGraph id ⟨g.edgeKind, (g.graph.run cs).1⟩ := by
  induction cs generalizing s g with
  | nil =>
    obtain ⟨hlt, hget⟩ := List.getElem?_eq_some_iff.1 hg
    have hset : s.graphs.set id g = s.graphs := by rw [← hget, List.set_getElem_self]
    exact (congrArg (fun graphs => { s with graphs := graphs }) hset).symm
  | cons c cs ih =>
    have hchange : s.change (.graph id c) = s.setGraph id (g.change c).state := by simp only [change, hg]
    have hnext : (s.change (.graph id c)).graphs[id]? = some (g.change c).state := by
      rw [getElem?_change_graph, hg, Option.map_some]
    have hrest := ih (s.change (.graph id c)) hnext
    rw [hchange] at hrest
    rw [List.map_cons, changeAll, List.foldl_cons, hchange]
    rw [changeAll] at hrest
    rw [hrest]
    simp only [setGraph, List.set_set]
    rfl

/-! ## Copies -/

theorem getElem?_concat_of_ne {α : Type} (xs : List α) (a : α) {i : Nat} (h : i ≠ xs.length) :
    (xs ++ [a])[i]? = xs[i]? := by
  rcases Nat.lt_or_gt_of_ne h with h | h
  · exact List.getElem?_append_left h
  · have hlen : (xs ++ [a]).length = xs.length + 1 := List.length_append
    rw [List.getElem?_eq_none (by omega), List.getElem?_eq_none (by omega)]

theorem addGraph_other {g : AnyGraph ν} (h : o ≠ .graph s.graphs.length) : (s.addGraph g).SameAt s o := by
  cases o with
  | graph id =>
    apply getElem?_concat_of_ne
    rintro rfl
    exact h rfl
  | set kind id => cases kind <;> rfl

theorem getElem?_addGraph (s : Store ν) (g : AnyGraph ν) : (s.addGraph g).graphs[s.graphs.length]? = some g :=
  List.getElem?_concat_length

theorem sets_addSet (s : Store ν) (set : ItemSet (kind.Item ν)) : (s.addSet set).sets kind = s.sets kind ++ [set] := by
  cases kind <;> rfl

theorem addSet_other {set : ItemSet (kind.Item ν)} (h : o ≠ .set kind (s.sets kind).length) :
    (s.addSet set).SameAt s o := by
  cases o with
  | graph id => cases kind <;> rfl
  | set kind' id =>
    by_cases hk : kind' = kind
    · subst hk
      simp only [SameAt, sets_addSet]
      apply getElem?_concat_of_ne
      rintro rfl
      exact h rfl
    · -- The sets of the other kind are kept in another list.
      cases kind <;> cases kind' <;> first | exact absurd rfl hk | rfl

theorem getElem?_addSet (s : Store ν) (set : ItemSet (kind.Item ν)) :
    ((s.addSet set).sets kind)[(s.sets kind).length]? = some set := by
  simp [sets_addSet]

/-! ## Independence -/

/-- The objects of a store keep to themselves, and a view follows those that it refers to. -/
structure Apart (s : Store ν) : Prop where
  /-- A mutation makes its change of the object at its number. -/
  graphChanged : ∀ id c, (s.change (.graph id c)).graphs[id]? = (s.graphs[id]?).map fun g => (g.change c).state
  setChanged : ∀ kind id c,
    ((s.change (.set kind id c)).sets kind)[id]? = ((s.sets kind)[id]?).map fun set => (set.change c).2
  /-- What a graph hands out is read from the graph as it is. -/
  live : ∀ id g, s.graphs[id]? = some g → s.look (.nodes id) = g.graph.nodes ∧ s.look (.edges id) = g.graph.edges ∧
    (∀ side x, s.look (.neighbors id side x) = g.graph.neighbors side x) ∧
    ∀ x, s.look (.incident id x) = g.graph.incident x
  /-- Mutations of others leave an object as it is. -/
  kept : ∀ ms o, (∀ m ∈ ms, m.target ≠ o) → (s.changeAll ms).SameAt s o
  /-- Mutations of objects that a view does not refer to change none of its answers. -/
  unseen : ∀ ms {kind : ItemKind} (v : View (Leaf ν kind)), (∀ m ∈ ms, v.refersTo m.target = false) →
    (s.changeAll ms).read v = s.read v ∧ (s.changeAll ms).collect v = s.collect v
  /-- In any order of mutations, an object comes to what its own mutations make of it. -/
  own : ∀ ms o, (s.changeAll ms).SameAt (s.changeAll (ms.filter fun m => m.target == o)) o
  /-- A view answers as if only the objects that it refers to had ever been changed. -/
  seen : ∀ ms {kind : ItemKind} (v : View (Leaf ν kind)),
    (s.changeAll ms).read v = (s.changeAll (ms.filter fun m => v.refersTo m.target)).read v
  /-- Whatever is done to others, a copy of a graph stays what the graph was when it was copied, and the graph stays
  what it was as well. -/
  graphCopied : ∀ id g, s.graphs[id]? = some g → id ≠ s.graphs.length ∧
    (∀ ms, (∀ m ∈ ms, m.target ≠ .graph s.graphs.length) →
      ((s.addGraph g).changeAll ms).graphs[s.graphs.length]? = some g) ∧
    ∀ ms, (∀ m ∈ ms, m.target ≠ .graph id) → ((s.addGraph g).changeAll ms).graphs[id]? = some g
  /-- So it is with a copy of a stored set. -/
  setCopied : ∀ kind id set, (s.sets kind)[id]? = some set → id ≠ (s.sets kind).length ∧
    (∀ ms, (∀ m ∈ ms, m.target ≠ .set kind (s.sets kind).length) →
      (((s.addSet set).changeAll ms).sets kind)[(s.sets kind).length]? = some set) ∧
    ∀ ms, (∀ m ∈ ms, m.target ≠ .set kind id) → (((s.addSet set).changeAll ms).sets kind)[id]? = some set

theorem apart (s : Store ν) : s.Apart where
  graphChanged := s.getElem?_change_graph
  setChanged := s.getElem?_change_set
  live id g hg := by simp [look, hg]
  kept _ _ h := changeAll_other h
  unseen ms kind v h := by
    have hread : (s.changeAll ms).read v = s.read v := by
      apply read_congr_objects
      intro l hl
      apply changeAll_other
      intro m hm e
      have hl' := View.refersTo_of_mem hl
      rw [← e, h m hm] at hl'
      cases hl'
    exact ⟨hread, by rw [collect_eq, collect_eq, hread]⟩
  own ms o := changeAll_at (fun m hm => by simp [hm]) (.refl s o) ms
  seen ms kind v := by
    apply read_congr_objects
    intro l hl
    apply changeAll_at _ (.refl s _)
    intro m hm
    rw [hm]
    exact View.refersTo_of_mem hl
  graphCopied id g hg := by
    have hid : id < s.graphs.length := (List.getElem?_eq_some_iff.1 hg).1
    have hold : (s.addGraph g).SameAt s (.graph id) := addGraph_other fun e => by cases e; omega
    refine ⟨by omega, fun ms h => ?_, fun ms h => ?_⟩
    · rw [(changeAll_other h).graphs, getElem?_addGraph]
    · rw [(changeAll_other h).graphs, hold.graphs, hg]
  setCopied kind id set hs := by
    have hid : id < (s.sets kind).length := (List.getElem?_eq_some_iff.1 hs).1
    have hold : (s.addSet set).SameAt s (.set kind id) := addSet_other fun e => by cases e; omega
    refine ⟨by omega, fun ms h => ?_, fun ms h => ?_⟩
    · rw [(changeAll_other h).sets, getElem?_addSet]
    · rw [(changeAll_other h).sets, hold.sets, hs]

end Store

end GraphViews
