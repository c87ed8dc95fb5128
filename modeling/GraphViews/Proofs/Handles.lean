import GraphViews.Proofs.Apart
import GraphViews.Workspace
/-!
# Views live on

In a workspace, graphs and views go by names, and a view is made at one time and read at another. When it was made
does not matter: making a view looks up names and no object (`newView?`), so a view made before some changes is the
view that would be made after them (`after_mutate`). Nor does it matter whether the names by which it was made are
still there. The answer to a question depends on the names in it and on the objects behind them (`ask_congr`).
-/

namespace GraphViews

/-! ## The names in a question -/

namespace Question

/-- The graphs that a question names. -/
def graphs : Question → List String
  | compareGraphs a b => [a, b]
  | graph name _ _ | graphQuoted name | check name | contents name | byNode name => [name]
  | set _ _ | unionNow _ _ | compareSets _ _ | comparePresent _ _ => []

/-- The sets that a question names. -/
def sets : Question → List String
  | compareGraphs _ _ | graph _ _ _ | graphQuoted _ | check _ | contents _ | byNode _ => []
  | set name _ => [name]
  | unionNow a b | compareSets a b => [a, b]
  | comparePresent a b => a.toList ++ b.toList

end Question

/-! ## Actions and mutations -/

/-- Whether the action changes a graph or a set. -/
def Action.mutates : Action → Bool
  | changeGraph _ _ | changeGraphInBulk _ _ | changeSet _ _ => true
  | _ => false

/-- Whether the action makes a view. -/
def Action.makesView : Action → Bool
  | viewGraph _ _ _ | protect _ _ | unite _ _ _ => true
  | _ => false

/-- What happens to a workspace: an action, or a mutation of one of its objects. -/
inductive Turn where
  | act (a : Action)
  | mutate (m : Mutation (Node Atom))

namespace Turn

def action? : Turn → Option Action
  | act a => some a
  | mutate _ => none

def mutation? : Turn → Option (Mutation (Node Atom))
  | act _ => none
  | mutate m => some m

end Turn

namespace Store

variable {β : Type} [BEq β] {s t : Store (Node β)} {v : AnyView (Node β)}

theorem readAny_congr (h : ∀ l ∈ v.view.leaves, s.SameAt t l.object) : s.readAny v = t.readAny v := by
  rw [readAny, readAny, read_congr_objects h]

theorem collectAny_congr (h : ∀ l ∈ v.view.leaves, s.SameAt t l.object) : s.collectAny v = t.collectAny v := by
  rw [collectAny, collectAny, collect_eq, collect_eq, read_congr_objects h]

theorem isLoose_congr {kind : ItemKind} {l : Leaf (Node β) kind} (h : s.SameAt t l.object) : s.isLoose l = t.isLoose l := by
  cases l with
  | edges id => simp only [isLoose, h.graphs]
  | stored kind id | nodes id | neighbors id side x | incident id x => rfl

theorem listsLoosely_congr (h : ∀ l ∈ v.view.leaves, s.SameAt t l.object) : s.listsLoosely v = t.listsLoosely v := by
  have hloose : ∀ l ∈ v.view.leaves, s.isLoose l = t.isLoose l := fun l hl => isLoose_congr (h l hl)
  unfold listsLoosely
  rw [Bool.eq_iff_iff, List.any_eq_true, List.any_eq_true]
  constructor
  · rintro ⟨l, hl, h⟩
    exact ⟨l, hl, by rwa [← hloose l hl]⟩
  · rintro ⟨l, hl, h⟩
    exact ⟨l, hl, by rwa [hloose l hl]⟩

end Store

namespace Workspace

variable {w w' : Workspace} {q : Question} {name : String}

/-! ## Questions -/

/-- The two workspaces have the same behind the names in a question. -/
structure AgreeOn (w w' : Workspace) (q : Question) : Prop where
  graphs : ∀ name ∈ q.graphs, w.graphs.find? name = w'.graphs.find? name ∧
    ∀ id, w.graphs.find? name = some id → w.store.SameAt w'.store (.graph id)
  sets : ∀ name ∈ q.sets, w.sets.find? name = w'.sets.find? name ∧
    ∀ v, w.sets.find? name = some v → ∀ l ∈ v.view.leaves, w.store.SameAt w'.store l.object

theorem AgreeOn.graph (h : w.AgreeOn w' q) (name : String) (hn : name ∈ q.graphs) : w.graph name = w'.graph name := by
  obtain ⟨hname, hsame⟩ := h.graphs name hn
  unfold Workspace.graph graphId
  rw [← hname]
  cases hid : w.graphs.find? name with
  | none => rfl
  | some id =>
    have hg := (hsame id hid).graphs
    simp only [Except.bind, bind, hg]

theorem AgreeOn.view (h : w.AgreeOn w' q) (hn : name ∈ q.sets) : w.view name = w'.view name := by
  unfold Workspace.view
  rw [(h.sets name hn).1]

theorem find?_of_view {v : AnyView (Node Atom)} (h : w.view name = .ok v) : w.sets.find? name = some v := by
  unfold view at h
  split at h
  · cases h
    assumption
  · cases h

theorem AgreeOn.reading (h : w.AgreeOn w' q) (name : String) (hn : name ∈ q.sets) : w.reading name = w'.reading name := by
  unfold Workspace.reading
  rw [← h.view hn]
  cases hv : w.view name with
  | error misuse => rfl
  | ok v =>
    have hread := Store.readAny_congr ((h.sets name hn).2 v (find?_of_view hv))
    simp only [Functor.map, Except.map, hread]

theorem AgreeOn.askSet (h : w.AgreeOn w' q) (hn : name ∈ q.sets) (question : SetQuestion (Node Atom)) :
    w.askSet name question = w'.askSet name question := by
  unfold Workspace.askSet
  rw [← h.view hn]
  cases hv : w.view name with
  | error misuse => rfl
  | ok v =>
    have hsame := (h.sets name hn).2 v (find?_of_view hv)
    simp only [Except.bind, bind, Store.readAny_congr hsame, Store.collectAny_congr hsame,
      Store.listsLoosely_congr hsame]
    cases question with
    | parts =>
      cases v with
      | mk kind view =>
        cases view with
        | union a b =>
          -- The two operands are read on their own, and their leaves are among those of the union.
          have ha : ∀ l ∈ a.leaves, w.store.SameAt w'.store l.object :=
            fun l hl => hsame l (List.mem_append_left _ hl)
          have hb : ∀ l ∈ b.leaves, w.store.SameAt w'.store l.object :=
            fun l hl => hsame l (List.mem_append_right _ hl)
          simp only [Store.readAny_congr (v := ⟨kind, a⟩) ha, Store.readAny_congr (v := ⟨kind, b⟩) hb]
        | leaf l | held holder v | unmodifiable v => rfl
    | size | isEmpty | contains x | items | plainText | quotedText | probe xs => rfl

theorem AgreeOn.readings (h : w.AgreeOn w' q) (present : Option String) (hn : ∀ name ∈ present, name ∈ q.sets) :
    present.mapM w.reading = present.mapM w'.reading := by
  cases present with
  | none => rfl
  | some name => simp only [Option.mapM_some, h.reading name (hn name rfl)]

/-- The answer to a question depends on what is behind the names in it. -/
theorem ask_congr (h : w.AgreeOn w' q) : w.ask q = w'.ask q := by
  cases q with
  | compareGraphs a b =>
    have ha := h.graph a (by simp [Question.graphs])
    have hb := h.graph b (by simp [Question.graphs])
    simp only [ask, ha, hb]
  | graph name _ _ | graphQuoted name | check name | contents name | byNode name =>
    have hg := h.graph name (by simp [Question.graphs])
    simp only [ask, hg]
  | set name question => exact h.askSet (by simp [Question.sets]) question
  | unionNow a b | compareSets a b =>
    have ha := h.reading a (by simp [Question.sets])
    have hb := h.reading b (by simp [Question.sets])
    simp only [ask, ha, hb]
  | comparePresent a b =>
    have ha := h.readings a fun name hn => List.mem_append_left _ (Option.mem_toList.2 hn)
    have hb := h.readings b fun name hn => List.mem_append_right _ (Option.mem_toList.2 hn)
    simp only [ask, ha, hb]

/-- Whether a name in the question leads to the object, as a graph or through a view. -/
def concerns (w : Workspace) (q : Question) (o : Object) : Bool :=
  (q.graphs.any fun name => (w.graphs.find? name).any fun id => Object.graph id == o) ||
    q.sets.any fun name => (w.sets.find? name).any fun v => v.view.refersTo o

theorem agreeOn_of_concerns (hgraphs : ∀ name ∈ q.graphs, w.graphs.find? name = w'.graphs.find? name)
    (hsets : ∀ name ∈ q.sets, w.sets.find? name = w'.sets.find? name)
    (h : ∀ o, w.concerns q o → w.store.SameAt w'.store o) : w.AgreeOn w' q where
  graphs name hn := by
    refine ⟨hgraphs name hn, fun id hid => h _ ?_⟩
    rw [concerns, Bool.or_eq_true, List.any_eq_true]
    exact .inl ⟨name, hn, by simp [hid]⟩
  sets name hn := by
    refine ⟨hsets name hn, fun v hv l hl => h _ ?_⟩
    rw [concerns, Bool.or_eq_true, List.any_eq_true, List.any_eq_true]
    exact .inr ⟨name, hn, by simp [hv, View.refersTo_of_mem hl]⟩

/-! ## Mutations -/

/-- The workspace after some mutations of its objects. -/
def mutate (w : Workspace) (ms : List (Mutation (Node Atom))) : Workspace := { w with store := w.store.changeAll ms }

theorem mutate_nil (w : Workspace) : w.mutate [] = w := rfl

theorem mutate_append (w : Workspace) (ms ms' : List (Mutation (Node Atom))) :
    w.mutate (ms ++ ms') = (w.mutate ms).mutate ms' := by
  simp only [mutate, Store.changeAll, List.foldl_append]

/-- The answer to a question is told by the mutations of the objects that it concerns. -/
theorem ask_mutate (w : Workspace) (q : Question) {p : Mutation (Node Atom) → Bool}
    (hp : ∀ m, w.concerns q m.target → p m) (ms : List (Mutation (Node Atom))) :
    (w.mutate ms).ask q = (w.mutate (ms.filter p)).ask q := by
  apply ask_congr
  refine agreeOn_of_concerns (fun _ _ => rfl) (fun _ _ => rfl) fun o ho => ?_
  apply Store.changeAll_at _ (.refl w.store o)
  rintro m rfl
  exact hp m ho

/-- The workspace after an action. One that makes no sense changes nothing. -/
def after (w : Workspace) (a : Action) : Workspace := (w.exec (.act a)).1

theorem after_eq (w : Workspace) (a : Action) : w.after a =
    match w.act a with
    | .ok r => r.1
    | .error _ => w := by
  unfold after exec
  cases w.act a <;> rfl

/-- The mutations that an action comes to. -/
def mutations (w : Workspace) : Action → List (Mutation (Node Atom))
  | .changeGraph name c =>
    match w.graphs.find? name with
    | none => []
    | some id => [.graph id c]
  | .changeGraphInBulk name cs =>
    match w.graphs.find? name with
    | none => []
    | some id => cs.map (.graph id)
  | .changeSet name c =>
    match w.sets.find? name with
    | none => []
    | some v =>
      match w.stored? v, c.mapM? v.kind.ofNode? with
      | some (id, _), some c => [.set v.kind id c]
      | _, _ => []
  | _ => []

theorem getElem?_of_stored? {v : AnyView (Node Atom)} {id : Nat} {set : ItemSet (v.kind.Item (Node Atom))}
    (h : w.stored? v = some (id, set)) : (w.store.sets v.kind)[id]? = some set := by
  unfold stored? at h
  split at h
  · obtain ⟨set', hs, he⟩ := Option.map_eq_some_iff.1 h
    cases he
    exact hs
  · cases h

/-- An action that changes a graph or a set makes some mutations, and does nothing else. -/
theorem after_eq_mutate (w : Workspace) {a : Action} (ha : a.mutates) : w.after a = w.mutate (w.mutations a) := by
  rw [after_eq]
  cases a with
  | changeGraph name c =>
    cases hid : w.graphs.find? name with
    | none => simp only [act, graphId, mutations, hid, bind, Except.bind, mutate_nil]
    | some id =>
      cases hg : w.store.graphs[id]? with
      | none =>
        have hmissing : w.store.change (.graph id c) = w.store := by simp only [Store.change, hg]
        simp only [act, graphId, graph, mutations, hid, hg, bind, Except.bind, mutate, Store.changeAll, List.foldl_cons,
          List.foldl_nil, hmissing]
      | some g =>
        simp only [act, graphId, graph, mutations, hid, hg, bind, Except.bind, mutate, Store.changeAll, List.foldl_cons,
          List.foldl_nil]
  | changeGraphInBulk name cs =>
    cases hid : w.graphs.find? name with
    | none => simp only [act, graphId, mutations, hid, bind, Except.bind, mutate_nil]
    | some id =>
      cases hg : w.store.graphs[id]? with
      | none =>
        simp only [act, graphId, graph, mutations, hid, hg, bind, Except.bind, mutate,
          w.store.changeAll_missing_graph hg]
      | some g =>
        simp only [act, graphId, graph, mutations, hid, hg, bind, Except.bind, mutate, w.store.changeAll_graph hg]
  | changeSet name c =>
    cases hv : w.sets.find? name with
    | none => simp only [act, view, mutations, hv, bind, Except.bind, mutate_nil]
    | some v =>
      cases hs : w.stored? v with
      | none => simp only [act, view, mutations, hv, hs, bind, Except.bind, mutate_nil]
      | some p =>
        cases hc : c.mapM? v.kind.ofNode? with
        | none => simp only [act, view, mutations, hv, hs, hc, bind, Except.bind, mutate_nil]
        | some c' =>
          have hset := getElem?_of_stored? hs
          simp only [act, view, mutations, hv, hs, hc, bind, Except.bind, mutate, Store.changeAll, List.foldl_cons,
            List.foldl_nil, Store.change, hset]
  | _ => cases ha

/-! ## Making views -/

/-- The view that an action makes now, under its name. Only names are looked up for it, and no object. -/
def newView? (w : Workspace) : Action → Option (String × AnyView (Node Atom))
  | .viewGraph name graph part => (w.graphs.find? graph).map fun id => (name, leafOf id part)
  | .protect name source =>
    (w.sets.find? source).map fun v => (name, ⟨v.kind, .unmodifiable (.held .handle v.view)⟩)
  | .unite name a b =>
    match w.sets.find? a, w.sets.find? b with
    | some va, some vb =>
      if h : vb.kind = va.kind then
        some (name, ⟨va.kind, .union (.held .handle va.view) (.held .handle (h ▸ vb.view))⟩)
      else none
    | _, _ => none
  | _ => none

theorem after_eq_newView (w : Workspace) {a : Action} (h : a.makesView) : w.after a =
    match w.newView? a with
    | some (name, v) => w.nameView name v
    | none => w := by
  rw [after_eq]
  cases a with
  | viewGraph name graph part =>
    cases hid : w.graphs.find? graph <;>
      simp only [act, graphId, newView?, hid, bind, Except.bind, Option.map_none, Option.map_some]
  | protect name source =>
    cases hv : w.sets.find? source <;>
      simp only [act, view, newView?, hv, bind, Except.bind, Option.map_none, Option.map_some]
  | unite name a b =>
    cases ha : w.sets.find? a with
    | none => simp only [act, view, newView?, ha, bind, Except.bind]
    | some va =>
      cases hb : w.sets.find? b with
      | none => simp only [act, view, newView?, ha, hb, bind, Except.bind]
      | some vb =>
        simp only [act, view, newView?, ha, hb, bind, Except.bind]
        by_cases hk : vb.kind = va.kind
        · simp only [dif_pos hk]
        · simp only [dif_neg hk]
  | _ => cases h

/-- It does not matter to a view whether it is made before some mutations or after them. -/
theorem after_mutate (w : Workspace) (ms : List (Mutation (Node Atom))) {a : Action} (h : a.makesView) :
    (w.mutate ms).after a = (w.after a).mutate ms := by
  have hview : (w.mutate ms).newView? a = w.newView? a := by cases a <;> rfl
  rw [after_eq_newView _ h, after_eq_newView _ h, hview]
  cases w.newView? a <;> rfl

/-- Giving a view the name that it has changes no answer. -/
theorem ask_nameView {v : AnyView (Node Atom)} (h : w.sets.find? name = some v) (q : Question) :
    (w.nameView name v).ask q = w.ask q := by
  apply ask_congr
  refine agreeOn_of_concerns (fun _ _ => rfl) (fun name' _ => ?_) fun o _ => .refl _ o
  rw [nameView, Table.find?_put]
  by_cases hn : name == name'
  · rw [if_pos hn, ← w.sets.find?_congr hn, h]
  · rw [if_neg hn]

theorem makesView_of_newView {a : Action} {made : String × AnyView (Node Atom)} (h : w.newView? a = some made) :
    a.makesView := by
  cases a <;> first | rfl | cases h

/-- The workspace after some actions, in order. -/
def afterAll (w : Workspace) (as : List Action) : Workspace := as.foldl after w

/-- The workspace after some turns, in order. -/
def afterTurns (w : Workspace) : List Turn → Workspace
  | [] => w
  | .act a :: ts => (w.after a).afterTurns ts
  | .mutate m :: ts => (w.mutate [m]).afterTurns ts

/-- Views that are made among mutations, some of them over others, are the views that are made after the last. -/
theorem afterTurns_eq (w : Workspace) {ts : List Turn} (h : ∀ a, .act a ∈ ts → a.makesView) :
    w.afterTurns ts = (w.mutate (ts.filterMap Turn.mutation?)).afterAll (ts.filterMap Turn.action?) := by
  induction ts generalizing w with
  | nil => rfl
  | cons t ts ih =>
    have hrest : ∀ a, .act a ∈ ts → a.makesView := fun a ha => h a (List.mem_cons_of_mem _ ha)
    cases t with
    | act a =>
      -- The mutations that are still to come are made before the view instead.
      rw [afterTurns, ih _ hrest, ← after_mutate w _ (h a List.mem_cons_self)]
      rfl
    | mutate m =>
      rw [afterTurns, ih _ hrest, ← mutate_append]
      rfl

/-! ## Copying and dropping -/

theorem after_copyGraph {source : String} {id : Nat} {g : AnyGraph (Node Atom)}
    (hid : w.graphs.find? source = some id) (hg : w.store.graphs[id]? = some g) :
    w.after (.copyGraph name source) = w.nameGraph name g := by
  rw [after_eq]
  simp only [act, graph, graphId, hid, hg, bind, Except.bind]

theorem after_copySet {source : String} {v : AnyView (Node Atom)} {id : Nat} {set : ItemSet (v.kind.Item (Node Atom))}
    (hv : w.sets.find? source = some v) (hs : w.stored? v = some (id, set)) :
    w.after (.copySet name source) = w.nameSet name set := by
  rw [after_eq]
  simp only [act, view, hv, hs, bind, Except.bind]

theorem find?_erase_of_ne {α : Type} {t : Table String α} {name name' : String} (h : name ≠ name') :
    t.find? name' = (t.erase name).find? name' := by
  rw [Table.find?_erase, beq_eq_false_iff_ne.2 h]
  rfl

/-- The question does not name the graph, so nobody notices that the name is gone. -/
theorem ask_dropGraph (w : Workspace) (ms : List (Mutation (Node Atom))) (hn : name ∉ q.graphs) :
    (w.mutate ms).ask q = ((w.after (.dropGraph name)).mutate ms).ask q := by
  apply ask_congr
  refine agreeOn_of_concerns (fun name' hn' => ?_) (fun _ _ => rfl) fun o _ => .refl _ o
  apply find?_erase_of_ne
  rintro rfl
  exact hn hn'

theorem ask_dropSet (w : Workspace) (ms : List (Mutation (Node Atom))) (hn : name ∉ q.sets) :
    (w.mutate ms).ask q = ((w.after (.dropSet name)).mutate ms).ask q := by
  apply ask_congr
  refine agreeOn_of_concerns (fun _ _ => rfl) (fun name' hn' => ?_) fun o _ => .refl _ o
  apply find?_erase_of_ne
  rintro rfl
  exact hn hn'

/-! ## Views live on -/

/-- How the names of a workspace stand to its objects, whatever is done with both. -/
structure Live (w : Workspace) : Prop where
  /-- To change a graph or a set by its name is to mutate the object behind it. -/
  changed : ∀ a : Action, a.mutates → w.after a = w.mutate (w.mutations a)
  /-- Mutations of objects that a question does not concern do not change the answer. -/
  unconcerned : ∀ ms q, (∀ m ∈ ms, w.concerns q m.target = false) → (w.mutate ms).ask q = w.ask q
  /-- The answer is as if the objects that the question concerns were the only ones ever changed. -/
  concerned : ∀ ms q, (w.mutate ms).ask q = (w.mutate (ms.filter fun m => w.concerns q m.target)).ask q
  /-- Whenever views are made in the course of mutations, they are the views that are made after the last mutation. -/
  made : ∀ ts, (∀ a, .act a ∈ ts → a.makesView) →
    w.afterTurns ts = (w.mutate (ts.filterMap Turn.mutation?)).afterAll (ts.filterMap Turn.action?)
  /-- A view is made, then anything may happen, and then the view is made anew. If the names by which it is made mean
  the same as before, and its own name has not been taken from it, then no answer changes. -/
  remade : ∀ a name v, w.newView? a = some (name, v) → ∀ w' : Workspace, w'.newView? a = some (name, v) →
    w'.sets.find? name = (w.after a).sets.find? name → ∀ q, (w'.after a).ask q = w'.ask q
  /-- A copy of a graph is another object. Neither it nor the original notices what is done to the other. -/
  graphCopied : ∀ name source id g, w.graphs.find? source = some id → w.store.graphs[id]? = some g →
    ∃ id', id ≠ id' ∧ (w.after (.copyGraph name source)).graphs.find? name = some id' ∧
      (∀ ms, (∀ m ∈ ms, m.target ≠ .graph id') → ((w.after (.copyGraph name source)).mutate ms).graph name = .ok g) ∧
      ∀ ms, (∀ m ∈ ms, m.target ≠ .graph id) →
        ((w.after (.copyGraph name source)).mutate ms).store.graphs[id]? = some g
  /-- So it is with a copy of a stored set. -/
  setCopied : ∀ name source v id set, w.sets.find? source = some v → w.stored? v = some (id, set) →
    ∃ id', id ≠ id' ∧ (w.after (.copySet name source)).sets.find? name = some ⟨v.kind, .leaf (.stored v.kind id')⟩ ∧
      (∀ ms, (∀ m ∈ ms, m.target ≠ .set v.kind id') →
        (((w.after (.copySet name source)).mutate ms).store.sets v.kind)[id']? = some set) ∧
      ∀ ms, (∀ m ∈ ms, m.target ≠ .set v.kind id) →
        (((w.after (.copySet name source)).mutate ms).store.sets v.kind)[id]? = some set
  /-- Without the name of a graph, every question that does not name it has the same answer, also after whatever is
  done to the graph then. -/
  graphDropped : ∀ name ms q, name ∉ q.graphs →
    (w.mutate ms).ask q = ((w.after (.dropGraph name)).mutate ms).ask q
  setDropped : ∀ name ms q, name ∉ q.sets → (w.mutate ms).ask q = ((w.after (.dropSet name)).mutate ms).ask q

theorem live (w : Workspace) : w.Live where
  changed a := w.after_eq_mutate
  unconcerned ms q h := by
    have hnone : (ms.filter fun m => w.concerns q m.target) = [] :=
      List.filter_eq_nil_iff.2 fun m hm => by simp [h m hm]
    rw [w.ask_mutate q (fun _ => id) ms, hnone, mutate_nil]
  concerned ms q := w.ask_mutate q (fun _ => id) ms
  made ts := w.afterTurns_eq
  remade a name v hv w' hv' hname q := by
    have ha := makesView_of_newView hv
    have hold : (w.after a).sets.find? name = some v := by
      rw [after_eq_newView w ha, hv]
      exact (w.sets.find?_put name name v).trans (if_pos BEq.rfl)
    rw [after_eq_newView w' ha, hv']
    exact ask_nameView (hname.trans hold) q
  graphCopied name source id g hid hg := by
    obtain ⟨hne, hcopy, hold⟩ := w.store.apart.graphCopied id g hg
    rw [after_copyGraph hid hg]
    have hname : (w.nameGraph name g).graphs.find? name = some w.store.graphs.length := by
      rw [nameGraph, Table.find?_put, if_pos BEq.rfl]
    refine ⟨w.store.graphs.length, hne, hname, fun ms h => ?_, hold⟩
    have hget : ((w.nameGraph name g).mutate ms).store.graphs[w.store.graphs.length]? = some g := hcopy ms h
    have hname' : ((w.nameGraph name g).mutate ms).graphs.find? name = some w.store.graphs.length := hname
    simp only [graph, graphId, hname', hget, bind, Except.bind]
  setCopied name source v id set hv hs := by
    obtain ⟨hne, hcopy, hold⟩ := w.store.apart.setCopied v.kind id set (getElem?_of_stored? hs)
    rw [after_copySet hv hs]
    refine ⟨(w.store.sets v.kind).length, hne, ?_, hcopy, hold⟩
    rw [nameSet, Table.find?_put, if_pos BEq.rfl]
  graphDropped _ ms _ := w.ask_dropGraph ms
  setDropped _ ms _ := w.ask_dropSet ms

/-- In any store, objects keep to themselves and views follow the objects that they refer to. In any workspace, a view
answers as the same view made anew, and goes on without the names by which it was made. -/
theorem views_live {ν : Type} [BEq ν] (s : Store ν) (w : Workspace) : s.Apart ∧ w.Live := ⟨s.apart, w.live⟩

/-- The neighbors of a node, seen by a view that is older than the node, while the node gets an edge, is erased, comes
back without the edge, and gets another. -/
example :
    let x : Node Atom := .pair (.unordered (.atom (.integer 1)) (.atom (.integer 2)))
    let x' : Node Atom := .pair (.unordered (.atom (.integer 2)) (.atom (.integer 1)))
    let y : Node Atom := .atom (.integer 3)
    let s : Store (Node Atom) := ({} : Store (Node Atom)).addGraph ⟨.undirected, .empty .undirected true⟩
    let v : View (Leaf (Node Atom) .node) := .unmodifiable (.held .handle (.leaf (.neighbors 0 .adjacent x)))
    let ms : List (Mutation (Node Atom)) := [.graph 0 (.insertEdge .checked x' y), .graph 0 (.eraseNode x),
      .graph 0 (.insertNode x'), .graph 0 (.insertEdge .checked y x)]
    [0, 1, 2, 3, 4].map (fun n => ((s.changeAll (ms.take n)).read v).size) = [0, 1, 0, 0, 1] := by
  decide +kernel

end Workspace

end GraphViews
