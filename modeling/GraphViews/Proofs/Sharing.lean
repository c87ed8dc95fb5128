import GraphViews.Node.Atom
import GraphViews.Proofs.Apart
import GraphViews.Proofs.Touching
/-!
# Changing a set through its handles

A stored set is changed directly, or through cells around it and shared handles to such cells. Each of them passes the
addition and the removal of one item on to what it holds; many items are added or removed through it one after another.
`snd_changeThrough` says that this comes to the same as the change of the set itself, so all handles to a set share one
history, and each of them shows what it led to.
-/

namespace GraphViews

/-- A way to a stored set. -/
inductive Handle where
  /-- The set itself, by its number. -/
  | direct (id : Nat)
  /-- A cell around what the handle leads to. -/
  | cell (h : Handle)
  /-- One of several handles to a cell around what the handle leads to. -/
  | shared (h : Handle)

namespace Handle

/-- The number of the set. -/
def id : Handle → Nat
  | direct id => id
  | cell h => h.id
  | shared h => h.id

/-- The set, as it is read through the handle. -/
def view {ν : Type} {kind : ItemKind} : Handle → View (Leaf ν kind)
  | direct id => .leaf (.stored kind id)
  | cell h => .held .cell h.view
  | shared h => .held .handle (.held .cell h.view)

end Handle

variable {ν : Type} [BEq ν] {kind : ItemKind}

namespace Store

/-! ## Changes through a handle -/

/-- Does something to the set that the handle leads to and gives its answer; nothing happens if there is no such set. -/
def atHandle (s : Store ν) (f : ItemSet (kind.Item ν) → Bool × ItemSet (kind.Item ν)) : Handle → Bool × Store ν
  | .direct id =>
    match (s.sets kind)[id]? with
    | none => (false, s)
    | some set => ((f set).1, s.setSet id (f set).2)
  | .cell h => s.atHandle f h
  | .shared h => s.atHandle f h

/-- Makes one change through a handle. Items are added and removed through the handle, one after another. To be extended
or cleared, the set itself is looked up. -/
def changeThrough (s : Store ν) (h : Handle) : SetChange (kind.Item ν) → Option Bool × Store ν
  | .add x => let r := s.atHandle (·.add x) h; (some r.1, r.2)
  | .remove x => let r := s.atHandle (·.remove x) h; (some r.1, r.2)
  | .addAll xs => let r := eachItem (fun s x => s.atHandle (·.add x) h) s xs; (some r.1, r.2)
  | .removeAll xs => let r := eachItem (fun s x => s.atHandle (·.remove x) h) s xs; (some r.1, r.2)
  | .extend xs => (none, (s.atHandle (fun set => (false, set.extend xs)) h).2)
  | .clear => (none, (s.atHandle (fun _ => (false, ItemSet.empty (α := kind.Item ν))) h).2)

variable {s : Store ν} {h : Handle} {set : ItemSet (kind.Item ν)}

theorem atHandle_eq (hs : (s.sets kind)[h.id]? = some set) (f : ItemSet (kind.Item ν) → Bool × ItemSet (kind.Item ν)) :
    s.atHandle f h = ((f set).1, s.setSet h.id (f set).2) := by
  induction h with
  | direct id =>
    rw [Handle.id] at hs
    simp only [atHandle, hs, Handle.id]
  | cell h ih => exact ih hs
  | shared h ih => exact ih hs

theorem atHandle_none (hs : (s.sets kind)[h.id]? = none) (f : ItemSet (kind.Item ν) → Bool × ItemSet (kind.Item ν)) :
    s.atHandle f h = (false, s) := by
  induction h with
  | direct id =>
    rw [Handle.id] at hs
    simp only [atHandle, hs]
  | cell h ih => exact ih hs
  | shared h ih => exact ih hs

theorem getElem?_setSet {id : Nat} (hs : (s.sets kind)[id]? = some set) (set' : ItemSet (kind.Item ν)) :
    ((s.setSet id set').sets kind)[id]? = some set' := by
  have hlt := (List.getElem?_eq_some_iff.1 hs).1
  cases kind <;> exact List.getElem?_set_self hlt

theorem setSet_self {id : Nat} (hs : (s.sets kind)[id]? = some set) : s.setSet id set = s := by
  obtain ⟨hlt, rfl⟩ := List.getElem?_eq_some_iff.1 hs
  have hsame : (s.sets kind).set id (s.sets kind)[id] = s.sets kind := List.set_getElem_self hlt
  cases kind with
  | node => exact congrArg (fun sets => { s with nodeSets := sets }) hsame
  | edge => exact congrArg (fun sets => { s with edgeSets := sets }) hsame

theorem setSet_setSet (s : Store ν) (id : Nat) (set set' : ItemSet (kind.Item ν)) :
    (s.setSet id set).setSet id set' = s.setSet id set' := by
  cases kind <;> simp [setSet]

/-- Item by item through a handle comes to item by item on the set. -/
theorem eachItem_atHandle (hs : (s.sets kind)[h.id]? = some set)
    (f : ItemSet (kind.Item ν) → kind.Item ν → Bool × ItemSet (kind.Item ν)) (xs : List (kind.Item ν)) :
    eachItem (fun s x => s.atHandle (f · x) h) s xs = ((eachItem f set xs).1, s.setSet h.id (eachItem f set xs).2) := by
  induction xs generalizing s set with
  | nil => rw [eachItem_nil, eachItem_nil, setSet_self hs]
  | cons x xs ih => rw [eachItem_cons, eachItem_cons, atHandle_eq hs, ih (getElem?_setSet hs _), setSet_setSet]

theorem eachItem_atHandle_none (hs : (s.sets kind)[h.id]? = none)
    (f : ItemSet (kind.Item ν) → kind.Item ν → Bool × ItemSet (kind.Item ν)) (xs : List (kind.Item ν)) :
    eachItem (fun s x => s.atHandle (f · x) h) s xs = (false, s) := by
  induction xs with
  | nil => rfl
  | cons x xs ih => rw [eachItem_cons, atHandle_none hs, ih, Bool.or_self]

/-- What a change through a handle tells is what the set tells. -/
theorem fst_changeThrough (hs : (s.sets kind)[h.id]? = some set) (c : SetChange (kind.Item ν)) :
    (s.changeThrough h c).1 = (set.change c).1 := by
  cases c with
  | add x | remove x => simp only [changeThrough, ItemSet.change, atHandle_eq hs]
  | addAll xs | removeAll xs =>
    simp only [changeThrough, ItemSet.change, eachItem_atHandle hs]
    rfl
  | extend xs | clear => rfl

/-- A change through a handle is a change of the set at its number. -/
theorem snd_changeThrough (s : Store ν) (h : Handle) (c : SetChange (kind.Item ν)) :
    (s.changeThrough h c).2 = s.change (.set kind h.id c) := by
  cases hs : (s.sets kind)[h.id]? with
  | none =>
    cases c with
    | add x | remove x | extend xs | clear => simp only [changeThrough, change, hs, atHandle_none hs]
    | addAll xs | removeAll xs => simp only [changeThrough, change, hs, eachItem_atHandle_none hs]
  | some set =>
    cases c with
    | add x | remove x | extend xs | clear => simp only [changeThrough, change, ItemSet.change, hs, atHandle_eq hs]
    | addAll xs | removeAll xs =>
      simp only [changeThrough, change, ItemSet.change, hs, eachItem_atHandle hs]
      rfl

/-! ## Many changes through many handles -/

/-- Makes the changes in order, each through its handle. -/
def changeAllThrough (s : Store ν) (calls : List (Handle × SetChange (kind.Item ν))) : Store ν :=
  calls.foldl (fun s call => (s.changeThrough call.1 call.2).2) s

end Store

/-- The changes that are made through handles to the set at a number. -/
def Handle.own {α : Type} (id : Nat) (calls : List (Handle × SetChange α)) : List (SetChange α) :=
  (calls.filter fun call => call.1.id == id).map (·.2)

namespace Store

variable {s : Store ν} {h : Handle} {set : ItemSet (kind.Item ν)} {id : Nat}

/-- The set at a number takes the changes made through its handles, and no others. -/
theorem changeAllThrough_at (hs : (s.sets kind)[id]? = some set) (calls : List (Handle × SetChange (kind.Item ν))) :
    ((s.changeAllThrough calls).sets kind)[id]? = some (set.run (Handle.own id calls)).1 := by
  induction calls generalizing s set with
  | nil => exact hs
  | cons call calls ih =>
    obtain ⟨h, c⟩ := call
    rw [changeAllThrough, List.foldl_cons, ← changeAllThrough, snd_changeThrough, Handle.own, List.filter_cons]
    by_cases hid : h.id = id
    · subst hid
      have hnext : ((s.change (.set kind h.id c)).sets kind)[h.id]? = some (set.change c).2 := by
        rw [getElem?_change_set, hs, Option.map_some]
      rw [if_pos (beq_self_eq_true h.id)]
      exact ih hnext
    · have hother : (s.change (.set kind h.id c)).SameAt s (.set kind id) :=
        change_other fun e => hid (Object.set.inj e).2
      rw [if_neg (by simpa using hid)]
      exact ih (hother.sets.trans hs)

/-- Each handle to a set shows it. -/
theorem read_view (hs : (s.sets kind)[h.id]? = some set) : s.read (h.view : View (Leaf ν kind)) = set.reading := by
  induction h with
  | direct id =>
    rw [Handle.id] at hs
    simp [read, Handle.view, View.read, look, hs]
  | cell h ih | shared h ih =>
    have hread : View.read s.look (h.view : View (Leaf ν kind)) = set.reading := ih hs
    simp only [read, Handle.view, View.read, hread]
    rfl

/-- A set is made of some items, or of none, and changed in any way, through any of its handles, while other sets are
changed through theirs. Then it holds what was added after its last removal, as it was first written since it was last
absent, and every change answers truly, whichever handle it is made through, and shows through all the others. Being
made of some items is the same as having them added to the empty set. -/
theorem sets_remember [EquivBEq ν] (s : Store ν) (made : List (kind.Item ν))
    (calls : List (Handle × SetChange (kind.Item ν))) :
    let id := (s.sets kind).length
    let after := (s.addSet (ItemSet.ofList made)).changeAllThrough calls
    ItemSet.ofList made = ((ItemSet.empty : ItemSet (kind.Item ν)).change (.addAll made)).2 ∧
    ∃ set : ItemSet (kind.Item ν), set.ToldBy made (Handle.own id calls) ∧
      ∀ h : Handle, h.id = id → after.read h.view = set.reading ∧
        ∀ (h' : Handle) c, h'.id = id → (after.changeThrough h c).1 = (set.change c).1 ∧
          (after.changeThrough h c).2.read h'.view = (set.change c).2.reading := by
  intro id after
  have hset : (after.sets kind)[id]? = some ((ItemSet.ofList made).run (Handle.own id calls)).1 :=
    changeAllThrough_at (getElem?_addSet s _) calls
  refine ⟨(ItemSet.snd_addAll _ made).symm, _, ItemSet.toldBy_run made (Handle.own id calls), ?_⟩
  intro h hid
  have hat : (after.sets kind)[h.id]? = some ((ItemSet.ofList made).run (Handle.own id calls)).1 := by rw [hid, hset]
  refine ⟨read_view hat, fun h' c hid' => ⟨fst_changeThrough hat c, ?_⟩⟩
  rw [snd_changeThrough]
  apply read_view
  rw [hid', hid, getElem?_change_set, hset, Option.map_some]

/-- One node, written in two ways: taken out through one handle and put back through another, it is written as it was
put back, and stays so when it is added as it was at first. -/
theorem sets_remember_swapped :
    let x : Node Atom := .pair (.unordered (.atom (.integer 1)) (.atom (.integer 2)))
    let x' : Node Atom := .pair (.unordered (.atom (.integer 2)) (.atom (.integer 1)))
    let made : List (ItemKind.node.Item (Node Atom)) := [x]
    let h : Handle := .shared (.direct 0)
    let calls : List (Handle × SetChange (ItemKind.node.Item (Node Atom))) :=
      [(h, .remove x'), (.cell h, .addAll [x', x])]
    let again : SetChange (ItemKind.node.Item (Node Atom)) := .addAll [x, x']
    let after := (({} : Store (Node Atom)).addSet (ItemSet.ofList made)).changeAllThrough calls
    (after.read (h.view : View (Leaf (Node Atom) .node))).items = [x'] ∧
      Touch.PresentAs (ItemSet.history made (Handle.own 0 calls)) x x' ∧
      (after.changeThrough h again).1 = some false ∧
      ((after.changeThrough h again).2.read ((Handle.direct 0).view : View (Leaf (Node Atom) .node))).size = 1 := by
  intro x x' made h calls again after
  obtain ⟨-, set, htold, hshown⟩ := sets_remember ({} : Store (Node Atom)) made calls
  obtain ⟨hread, hchanged⟩ := hshown h rfl
  have hitems : set.items = [x'] := (congrArg Reading.items hread).symm
  obtain ⟨hanswer, hdirect⟩ := hchanged (.direct 0) again rfl
  have hsame : (set.change again).2.size = set.size := by
    have hsize := (htold.answer again false hanswer.symm).1
    simpa using hsize
  refine ⟨rfl, (htold.form x x').1 (by rw [hitems]; rfl), rfl, ?_⟩
  rw [hdirect]
  change (set.change again).2.size = 1
  rw [hsame, ItemSet.size, hitems]
  rfl

end Store

end GraphViews
