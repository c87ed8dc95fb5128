import GraphViews.Proofs.Sound
/-!
# What changes come to

A change that is not refused comes to one of four updates, and which one, or whether it is refused, depends on the
policy of the graph alone, which no change alters. A run is therefore a fold of updates (`fst_run_eq`). Insertions
only bring nodes and edges, so what is there after many of them can be said without their order
(`hasNode_updateAll`, `hasEdge_updateAll`).
-/

namespace GraphViews

/-- One of the four updates that changes come to. -/
inductive Update (ν : Type) where
  | addNode (x : ν)
  | addEdge (u v : ν)
  | dropNode (x : ν)
  | dropEdge (u v : ν)

namespace Update

variable {ν : Type}

/-- Whether the update adds. The others take away. -/
def inserts : Update ν → Bool
  | addNode _ | addEdge _ _ => true
  | dropNode _ | dropEdge _ _ => false

variable [BEq ν]

/-- Whether `x` is a node after the update, whatever was there before. -/
def bringsNode : Update ν → ν → Bool
  | addNode z, x => z == x
  | addEdge u v, x => u == x || v == x
  | _, _ => false

/-- Whether there is an edge from `a` to `b` after the update, whatever was there before. -/
def bringsEdge (d : EdgeKind) : Update ν → ν → ν → Bool
  | addEdge u v, a, b => d.edge u v == d.edge a b
  | _, _, _ => false

/-- The insertion of the edge from `u` to `v`, unless it is a self-loop against the policy. -/
def addEdge? (selfLoops : Bool) (u v : ν) : Option (Update ν) :=
  if !selfLoops && u == v then none else some (addEdge u v)

end Update

namespace Change

variable {ν : Type}

/-- Whether the change asks for the insertion of an edge. -/
def putsEdge : Change ν → Bool
  | insertEdge _ _ _ | insertPair _ _ => true
  | _ => false

/-- The update that the change comes to in a graph with the given policy, unless it is refused there. -/
def update? [BEq ν] (d : EdgeKind) (selfLoops : Bool) : Change ν → Option (Update ν)
  | insertNode x => some (.addNode x)
  | eraseNode x => some (.dropNode x)
  | insertEdge _ u v => Update.addEdge? selfLoops u v
  | eraseEdge u v => some (.dropEdge u v)
  | insertPair _ p => if d.admits p then Update.addEdge? selfLoops p.fst p.snd else none
  | erasePair _ p => if d.admits p then some (.dropEdge p.fst p.snd) else none

section
variable [BEq ν] {d : EdgeKind} {selfLoops : Bool} {c : Change ν} {u : Update ν}

/-- An update adds just if the change that comes to it does. -/
theorem inserts_of_update? (h : c.update? d selfLoops = some u) : u.inserts = c.inserts := by
  have hedge : ∀ {x y : ν}, Update.addEdge? selfLoops x y = some u → u.inserts = true := by
    intro x y hxy
    unfold Update.addEdge? at hxy
    split at hxy
    · cases hxy
    · cases hxy
      rfl
  cases c with
  | insertNode x | eraseNode x | eraseEdge x y =>
    cases h
    rfl
  | insertEdge s x y => exact hedge h
  | insertPair s p =>
    rw [update?] at h
    split at h
    · exact hedge h
    · cases h
  | erasePair s p =>
    rw [update?] at h
    split at h
    · cases h
      rfl
    · cases h

end

end Change

namespace Graph

variable {ν : Type} [BEq ν] {d : EdgeKind}

/-- The graph after an update. -/
def update (g : Graph ν d) : Update ν → Graph ν d
  | .addNode x => g.withNode x
  | .addEdge u v => g.withEdge u v
  | .dropNode x => g.withoutNode x
  | .dropEdge u v => g.withoutEdge u v

/-- The graph after several updates, in order. -/
def updateAll (g : Graph ν d) (us : List (Update ν)) : Graph ν d := us.foldl update g

/-! ## A run as a list of updates -/

theorem state_insertEdge (g : Graph ν d) (s : Strictness) (u v : ν) :
    (g.insertEdge s u v).state = ((Update.addEdge? g.selfLoops u v).map g.update).getD g := by
  rw [insertEdge_eq, Update.addEdge?]
  split <;> rfl

/-- A change makes the update that it comes to, and nothing if it is refused. -/
theorem state_change (g : Graph ν d) (c : Change ν) :
    (g.change c).state = ((c.update? d g.selfLoops).map g.update).getD g := by
  cases c with
  | insertNode x | eraseNode x | eraseEdge u v => rfl
  | insertEdge s u v => exact g.state_insertEdge s u v
  | insertPair s p =>
    rw [change_insertPair, Change.update?]
    split
    · exact g.state_insertEdge s p.fst p.snd
    · rfl
  | erasePair s p =>
    rw [change_erasePair, Change.update?]
    split <;> rfl

theorem selfLoops_run (g : Graph ν d) (cs : List (Change ν)) : (g.run cs).1.selfLoops = g.selfLoops := by
  induction cs generalizing g with
  | nil => rfl
  | cons c cs ih => exact (ih _).trans (g.selfLoops_change c)

theorem fst_run_eq (g : Graph ν d) (cs : List (Change ν)) :
    (g.run cs).1 = g.updateAll (cs.filterMap (·.update? d g.selfLoops)) := by
  induction cs generalizing g with
  | nil => rfl
  | cons c cs ih =>
    have hrun : (g.run (c :: cs)).1 = ((g.change c).state.run cs).1 := rfl
    have hstate := g.state_change c
    -- The policy is the same for the rest of the run, so the same updates come of it.
    rw [hrun, ih, selfLoops_change, hstate, List.filterMap_cons]
    cases c.update? d g.selfLoops <;> rfl

/-! ## Insertions -/

section
variable [EquivBEq ν]

theorem hasNode_update (g : Graph ν d) {u : Update ν} (h : u.inserts) (x : ν) :
    (g.update u).hasNode x = (u.bringsNode x || g.hasNode x) := by
  cases u with
  | addNode z => exact g.hasNode_withNode z x
  | addEdge a b => exact g.hasNode_withEdge a b x
  | dropNode z | dropEdge a b => cases h

theorem hasEdge_update (g : Graph ν d) {u : Update ν} (h : u.inserts) (a b : ν) :
    (g.update u).hasEdge a b = (u.bringsEdge d a b || g.hasEdge a b) := by
  cases u with
  | addNode z => exact g.hasEdge_withNode z a b
  | addEdge s t => exact g.hasEdge_withEdge s t a b
  | dropNode z | dropEdge s t => cases h

/-- After insertions there are the nodes of before and those that one of them brings. -/
theorem hasNode_updateAll (g : Graph ν d) {us : List (Update ν)} (h : ∀ u ∈ us, u.inserts) (x : ν) :
    (g.updateAll us).hasNode x = (us.any (·.bringsNode x) || g.hasNode x) := by
  induction us generalizing g with
  | nil => rfl
  | cons u us ih =>
    obtain ⟨hu, hus⟩ := List.forall_mem_cons.1 h
    have hcons : g.updateAll (u :: us) = (g.update u).updateAll us := rfl
    rw [hcons, ih _ hus, hasNode_update g hu, List.any_cons, Bool.or_left_comm, Bool.or_assoc]

/-- After insertions there are the edges of before and those that one of them brings. -/
theorem hasEdge_updateAll (g : Graph ν d) {us : List (Update ν)} (h : ∀ u ∈ us, u.inserts) (a b : ν) :
    (g.updateAll us).hasEdge a b = (us.any (·.bringsEdge d a b) || g.hasEdge a b) := by
  induction us generalizing g with
  | nil => rfl
  | cons u us ih =>
    obtain ⟨hu, hus⟩ := List.forall_mem_cons.1 h
    have hcons : g.updateAll (u :: us) = (g.update u).updateAll us := rfl
    rw [hcons, ih _ hus, hasEdge_update g hu, List.any_cons, Bool.or_left_comm, Bool.or_assoc]

end

/-! ## How many edges come in -/

/-- How many of the changes ask for the insertion of an edge and are told that it is new. -/
def newEdges (g : Graph ν d) (cs : List (Change ν)) : Nat :=
  (cs.zip (g.run cs).2).countP fun r => r.1.putsEdge && r.2.answer.toOption == some true

theorem edgeCount_insertEdge (g : Graph ν d) (s : Strictness) (u v : ν) :
    (g.insertEdge s u v).state.edgeCount =
      g.edgeCount + if (g.insertEdge s u v).answer.toOption == some true then 1 else 0 := by
  rw [insertEdge_eq]
  split
  · rfl
  · change (g.withEdge u v).edgeCount = g.edgeCount + if some (!g.hasEdge u v) == some true then 1 else 0
    rw [withEdge]
    cases g.hasEdge u v <;> rfl

/-- An insertion raises the count by one if it brings an edge that was not there, and leaves it otherwise. -/
theorem edgeCount_change (g : Graph ν d) {c : Change ν} (h : c.inserts) : (g.change c).state.edgeCount =
    g.edgeCount + if c.putsEdge && (g.change c).answer.toOption == some true then 1 else 0 := by
  cases c with
  | eraseNode x | eraseEdge u v | erasePair s p => cases h
  | insertNode x => rfl
  | insertEdge s u v => exact g.edgeCount_insertEdge s u v
  | insertPair s p =>
    rw [change_insertPair]
    split
    · exact g.edgeCount_insertEdge s p.fst p.snd
    · rfl

theorem edgeCount_run (g : Graph ν d) {cs : List (Change ν)} (h : ∀ c ∈ cs, c.inserts) :
    (g.run cs).1.edgeCount = g.edgeCount + g.newEdges cs := by
  induction cs generalizing g with
  | nil => rfl
  | cons c cs ih =>
    obtain ⟨hc, hcs⟩ := List.forall_mem_cons.1 h
    have hrun : (g.run (c :: cs)).1 = ((g.change c).state.run cs).1 := rfl
    have hnew : g.newEdges (c :: cs) = (g.change c).state.newEdges cs +
        if c.putsEdge && (g.change c).answer.toOption == some true then 1 else 0 := by
      unfold newEdges
      rw [run, List.zip_cons_cons, List.countP_cons]
    rw [hrun, ih _ hcs, edgeCount_change g hc, hnew]
    omega

end Graph

end GraphViews
