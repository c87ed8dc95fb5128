import GraphViews.Proofs.Agreement
import GraphViews.Proofs.Reachable
import GraphViews.Proofs.Shape
/-!
# The journal tells the whole story

Whoever reads the journal of a graph, and nothing else, knows the nodes and the edges of the graph. The journal is
read as a list of steps of a shape (`Shape.replay`). It does not name a node that came in with an edge, nor an edge
that an erased node took along; putting in an edge and removing a node do the same to a shape, so nothing is lost.
`Sound.told_change` says this of the entries of one change, and that each of them is true. `Sound.noted_change` says
which entries a call leaves out.
-/

namespace GraphViews

/-! ## Reading entries -/

namespace Event

variable {ν : Type}

/-- Whether the entry is about an edge that came in and was not there before. -/
def isNewEdge : Event ν → Bool
  | edgeInserted _ _ isNew => isNew
  | _ => false

/-- Whether the entry is about an edge that was taken out by itself. -/
def isErasedEdge : Event ν → Bool
  | edgeErased _ _ => true
  | _ => false

/-- The number of edges that went with an erased node, by its entry. -/
def degree : Event ν → Nat
  | nodeErased _ n => n
  | _ => 0

/-- Whether the entry only comes with a call that changes the nodes or the edges. The entry of an inserted edge
comes with every call that is not refused. -/
def isAmendment : Event ν → Bool
  | nodeInserted _ | nodeErased _ _ | edgeErased _ _ => true
  | _ => false

/-- Whether the entry is one of the two around the erasure of a node. -/
def isFrame : Event ν → Bool
  | erasureEntered | erasureLeft => true
  | _ => false

/-- The number of edges that went with erased nodes, by a whole journal. -/
def degrees (log : List (Event ν)) : Nat := log.foldr (fun e n => e.degree + n) 0

theorem degrees_append (log log' : List (Event ν)) : degrees (log ++ log') = degrees log + degrees log' := by
  induction log with
  | nil => exact (Nat.zero_add _).symm
  | cons e log ih =>
    have hcons : ∀ l, degrees (e :: l) = e.degree + degrees l := fun _ => rfl
    rw [List.cons_append, hcons, hcons, ih, Nat.add_assoc]

end Event

namespace Shape

variable {ν : Type} [BEq ν] {d : EdgeKind}

/-- What an entry says of the shape before it: a node that came in was missing, an edge was new if the entry says so,
and what went out was there. The degree of an erased node is the number of pairs that go with it. -/
def Bears [EquivBEq ν] (A : Shape ν d) : Event ν → Prop
  | .nodeInserted x => A.nodes x = false
  | .edgeInserted u v isNew => isNew = !A.edges u v
  | .nodeErased x n => A.nodes x ∧ HasCount (fun p => A.hasPair p && !(A.removeNode x).hasPair p) n
  | .edgeErased u v => A.edges u v
  | .erasureEntered | .erasureLeft | .violated _ => True

variable [EquivBEq ν]

/-- The shape after an entry. -/
def replayEvent (A : Shape ν d) : Event ν → Shape ν d
  | .nodeInserted x => A.addNode x
  | .edgeInserted u v _ => A.putEdge u v
  | .nodeErased x _ => A.removeNode x
  | .edgeErased u v => A.removeEdge u v
  | .erasureEntered | .erasureLeft | .violated _ => A

/-- The shape after all entries, in order. -/
def replay (A : Shape ν d) (log : List (Event ν)) : Shape ν d := log.foldl replayEvent A

/-- Every entry is true of the shape that the entries before it lead to. -/
def Accounts (A : Shape ν d) : List (Event ν) → Prop
  | [] => True
  | e :: log => A.Bears e ∧ (A.replayEvent e).Accounts log

theorem replay_append (A : Shape ν d) (log log' : List (Event ν)) :
    A.replay (log ++ log') = (A.replay log).replay log' := List.foldl_append

theorem accounts_append {A : Shape ν d} {log log' : List (Event ν)} (h : A.Accounts log)
    (h' : (A.replay log).Accounts log') : A.Accounts (log ++ log') := by
  induction log generalizing A with
  | nil => exact h'
  | cons e log ih => exact ⟨h.1, ih h.2 h'⟩

/-! ### Steps that do nothing -/

theorem addNode_of_mem {A : Shape ν d} {x : ν} (h : A.nodes x) : A.addNode x = A := by
  apply Shape.ext
  · funext y
    by_cases hxy : x == y
    · simp [addNode, hxy, ← A.nodes_congr hxy, h]
    · simp [addNode, hxy]
  · rfl

theorem removeEdge_of_not_mem {A : Shape ν d} {u v : ν} (h : A.edges u v = false) : A.removeEdge u v = A := by
  apply Shape.ext
  · rfl
  · funext a b
    by_cases hab : d.edge u v == d.edge a b
    · simp [removeEdge, ← A.edges_eq_of_beq hab, h]
    · simp [removeEdge, d.goes_eq, hab]

theorem removeNode_of_not_mem {A : Shape ν d} {x : ν} (h : A.nodes x = false) : A.removeNode x = A := by
  have hne : ∀ {y}, A.nodes y → (x == y) = false := by
    intro y hy
    rw [Bool.eq_false_iff]
    intro hxy
    rw [A.nodes_congr hxy, hy] at h
    cases h
  apply Shape.ext
  · funext y
    cases hy : A.nodes y with
    | false => simp [removeNode, hy]
    | true => simp [removeNode, hy, hne hy]
  · funext a b
    cases hab : A.edges a b with
    | false => simp [removeNode, hab]
    | true =>
      obtain ⟨ha, hb⟩ := A.ends_of_edge hab
      simp [removeNode, hab, hne ha, hne hb]

end Shape

/-- The entries of an effect lead from the shape before it to the shape after it, all of them are true, and they
account for the count of edges, which was `n` before it. -/
structure Effect.Told {ν : Type} [BEq ν] [EquivBEq ν] {d : EdgeKind} (A : Shape ν d) (n : Nat)
    (e : Effect ν (Graph ν d)) : Prop where
  fits : e.state.Fits (A.replay e.events)
  accounts : A.Accounts e.events
  balance : e.state.edgeCount + e.events.countP Event.isErasedEdge + Event.degrees e.events =
    n + e.events.countP Event.isNewEdge

namespace Graph

variable {ν : Type} [BEq ν] [EquivBEq ν] {d : EdgeKind} {g : Graph ν d} {A : Shape ν d}

/-! ## The entries of one change -/

theorem Fits.told_refuse (h : g.Fits A) (s : Strictness) (violation : Violation ν) :
    (g.refuse s violation).Told A g.edgeCount := by
  cases s with
  | checked => exact ⟨h, trivial, rfl⟩
  | asserted => exact ⟨h, ⟨trivial, trivial⟩, rfl⟩

theorem Fits.told_insertNode (h : g.Fits A) (x : ν) : (g.insertNode x).Told A g.edgeCount := by
  have hfits : (g.withNode x).Fits (A.addNode x) := h.withNode x
  unfold insertNode
  cases hx : g.hasNode x with
  | true =>
    rw [h.nodes] at hx
    rw [Shape.addNode_of_mem hx] at hfits
    exact ⟨hfits, trivial, rfl⟩
  | false =>
    rw [h.nodes] at hx
    exact ⟨hfits, ⟨hx, trivial⟩, rfl⟩

theorem Fits.told_insertEdge (h : g.Fits A) (u v : ν) : Effect.Told A g.edgeCount
    ⟨.ok (!g.hasEdge u v), g.withEdge u v, [.edgeInserted u v (!g.hasEdge u v)]⟩ := by
  have hnew : (!g.hasEdge u v) = !A.edges u v := by rw [h.edges]
  refine ⟨h.withEdge u v, ⟨hnew, trivial⟩, ?_⟩
  have hcount : (g.withEdge u v).edgeCount = if g.hasEdge u v then g.edgeCount else g.edgeCount + 1 := rfl
  rw [hcount]
  cases g.hasEdge u v <;> rfl

theorem Sound.told_eraseEdge (hg : g.Sound) (h : g.Fits A) (u v : ν) : (g.eraseEdge u v).Told A g.edgeCount := by
  have hfits : (g.withoutEdge u v).Fits (A.removeEdge u v) := h.withoutEdge u v
  have hcount : (g.withoutEdge u v).edgeCount = if g.hasEdge u v then g.edgeCount - 1 else g.edgeCount := rfl
  unfold eraseEdge
  cases he : g.hasEdge u v with
  | true =>
    -- The erased edge was counted, so the count does not fall below zero.
    have hpos : 1 ≤ g.edgeCount := hg.edgeCount_pos he
    have hthere : A.edges u v := by rw [← h.edges, he]
    refine ⟨hfits, ⟨hthere, trivial⟩, ?_⟩
    change (g.withoutEdge u v).edgeCount + 1 + 0 = g.edgeCount + 0
    rw [hcount, he, if_pos rfl]
    omega
  | false =>
    rw [Shape.removeEdge_of_not_mem (by rw [← h.edges, he])] at hfits
    refine ⟨hfits, trivial, ?_⟩
    rw [hcount, he]
    rfl

theorem Sound.told_eraseNode (hg : g.Sound) (h : g.Fits A) (x : ν) : (g.eraseNode x).Told A g.edgeCount := by
  have hfits : (g.withoutNode x).Fits (A.removeNode x) := h.withoutNode hg x
  have hcount : (g.withoutNode x).edgeCount = g.edgeCount - g.degree x := g.edgeCount_withoutNode x
  unfold eraseNode
  cases hx : g.hasNode x with
  | true =>
    have hle : g.degree x ≤ g.edgeCount := hg.degree_le_edgeCount x
    have hlost : HasCount (fun p => A.hasPair p && !(A.removeNode x).hasPair p) (g.degree x) := by
      refine (hg.hasCount_at x).congr fun p => ?_
      have hp : g.hasPair p = A.hasPair p := by rw [hasPair, Shape.hasPair, h.edges]
      have hp' : (g.withoutNode x).hasPair p = (A.removeNode x).hasPair p := by
        rw [hasPair, Shape.hasPair, hfits.edges]
      rw [← hp', hasPair_withoutNode hg.returned, ← hp]
      cases g.hasPair p <;> simp
    have hthere : A.nodes x := by rw [← h.nodes, hx]
    refine ⟨hfits, ⟨trivial, ⟨hthere, hlost⟩, trivial, trivial⟩, ?_⟩
    change (g.withoutNode x).edgeCount + 0 + (0 + (g.degree x + 0)) = g.edgeCount + 0
    rw [hcount]
    omega
  | false =>
    have hzero : g.degree x = 0 := by rw [degree, find?_eq_none hx, Option.map_none, Option.getD_none]
    rw [Shape.removeNode_of_not_mem (by rw [← h.nodes, hx])] at hfits
    refine ⟨hfits, ⟨trivial, trivial, trivial⟩, ?_⟩
    rw [hcount, hzero]
    rfl

/-- The entries of any change tell what it does. -/
theorem Sound.told_change (hg : g.Sound) (h : g.Fits A) (c : Change ν) : (g.change c).Told A g.edgeCount :=
  change_of h.told_refuse h.told_insertNode (hg.told_eraseNode h) (fun u v _ => h.told_insertEdge u v)
    (hg.told_eraseEdge h) c

end Graph

/-- What the entries of an effect on the graph `g` have to do with its answer. -/
structure Effect.Noted {ν : Type} [BEq ν] {d : EdgeKind} (g : Graph ν d) (e : Effect ν (Graph ν d)) : Prop where
  /-- If all nodes and edges stay as they are, then no node and no erased edge is noted. -/
  idle : (∀ x, e.state.hasNode x = g.hasNode x) → (∀ u v, e.state.hasEdge u v = g.hasEdge u v) →
    ∀ entry ∈ e.events, entry.isAmendment = false
  /-- So it is if the answer is not yes. -/
  answered : ∀ entry ∈ e.events, entry.isAmendment → e.answer = .ok true
  /-- A refused call notes nothing but its violation, and this only if it fails its caller. -/
  refused : ∀ s violation, e.answer = .error ⟨s, violation⟩ →
    e.events = if s = .asserted then [.violated violation] else []
  /-- No other call notes a violation. -/
  accepted : ∀ b, e.answer = .ok b → ∀ violation, .violated violation ∉ e.events

namespace Graph

variable {ν : Type} [BEq ν] {d : EdgeKind} {g : Graph ν d}

theorem noted_refuse (s : Strictness) (violation : Violation ν) : (g.refuse s violation).Noted g where
  idle _ _ := by cases s <;> simp [refuse, Event.isAmendment]
  answered := by cases s <;> simp [refuse, Event.isAmendment]
  refused s' violation' h := by
    cases h
    cases s <;> rfl
  accepted _ h := by cases h

theorem noted_insertEdge (u v : ν) : Effect.Noted g
    ⟨.ok (!g.hasEdge u v), g.withEdge u v, [.edgeInserted u v (!g.hasEdge u v)]⟩ where
  idle _ _ := by simp [Event.isAmendment]
  answered := by simp [Event.isAmendment]
  refused _ _ h := by cases h
  accepted _ _ := by simp

theorem noted_insertNode [EquivBEq ν] (x : ν) : (g.insertNode x).Noted g where
  idle hnode _ := by
    have hx : g.hasNode x := by
      rw [← hnode]
      simp [insertNode, hasNode_withNode]
    simp [insertNode, hx]
  answered := by
    unfold insertNode
    cases g.hasNode x <;> simp
  refused _ _ h := by cases h
  accepted _ _ := by
    unfold insertNode
    cases g.hasNode x <;> simp

theorem noted_eraseEdge [EquivBEq ν] (u v : ν) : (g.eraseEdge u v).Noted g where
  idle _ hedge := by
    have he : g.hasEdge u v = false := by
      rw [← hedge]
      simp [eraseEdge, hasEdge_withoutEdge]
    simp [eraseEdge, he]
  answered := by
    unfold eraseEdge
    cases g.hasEdge u v <;> simp
  refused _ _ h := by cases h
  accepted _ _ := by
    unfold eraseEdge
    cases g.hasEdge u v <;> simp

theorem Sound.noted_eraseNode [EquivBEq ν] (hg : g.Sound) (x : ν) : (g.eraseNode x).Noted g where
  idle hnode _ := by
    have hx : g.hasNode x = false := by
      rw [← hnode]
      simp [eraseNode, hasNode_withoutNode hg.returned]
    simp [eraseNode, hx, Event.isAmendment]
  answered := by
    unfold eraseNode
    cases g.hasNode x <;> simp [Event.isAmendment]
  refused _ _ h := by cases h
  accepted _ _ := by
    unfold eraseNode
    cases g.hasNode x <;> simp

theorem Sound.noted_change [EquivBEq ν] (hg : g.Sound) (c : Change ν) : (g.change c).Noted g :=
  change_of noted_refuse noted_insertNode hg.noted_eraseNode (fun u v _ => noted_insertEdge u v) noted_eraseEdge c

/-! ### The frame of an erasure -/

/-- The erasure of a node is framed, whether or not the node is there. -/
theorem framed_eraseNode (g : Graph ν d) (x : ν) : ∃ inner, (g.change (.eraseNode x)).events =
    .erasureEntered :: (inner ++ [.erasureLeft]) ∧ ∀ entry ∈ inner, entry.isFrame = false := by
  refine ⟨_, rfl, ?_⟩
  cases g.hasNode x <;> simp [Event.isFrame]

/-- No other change has such a frame. -/
theorem unframed_change (g : Graph ν d) {c : Change ν} (hc : ∀ x, c ≠ .eraseNode x) :
    ∀ entry ∈ (g.change c).events, entry.isFrame = false := by
  have hrefuse : ∀ s violation, ∀ entry ∈ (g.refuse s violation).events, entry.isFrame = false := by
    intro s violation
    cases s <;> simp [refuse, Event.isFrame]
  have hinsert : ∀ s u v, ∀ entry ∈ (g.insertEdge s u v).events, entry.isFrame = false := by
    intro s u v
    rw [insertEdge_eq]
    split
    · exact hrefuse s _
    · simp [Event.isFrame]
  have herase : ∀ u v, ∀ entry ∈ (g.eraseEdge u v).events, entry.isFrame = false := by
    intro u v
    unfold eraseEdge
    cases g.hasEdge u v <;> simp [Event.isFrame]
  cases c with
  | insertNode x =>
    rw [change, Graph.insertNode]
    cases g.hasNode x <;> simp [Event.isFrame]
  | eraseNode x => exact absurd rfl (hc x)
  | insertEdge s u v => exact hinsert s u v
  | eraseEdge u v => exact herase u v
  | insertPair s p =>
    rw [change_insertPair]
    split
    · exact hinsert s p.fst p.snd
    · exact hrefuse s _
  | erasePair s p =>
    rw [change_erasePair]
    split
    · exact herase p.fst p.snd
    · exact hrefuse s _

/-! ## A whole journal -/

/-- What was noted in a history, from its first change on. -/
def journal : List (Past ν d) → List (Event ν)
  | [] => []
  | p :: past => journal past ++ p.effect.events

/-- The list is what the graph noted since it was empty. -/
def Journaled (log : List (Event ν)) (g : Graph ν d) : Prop := ∃ past, Traced past g ∧ journal past = log

variable {log : List (Event ν)}

/-- A run appends the entries of its changes. -/
theorem Journaled.run (h : Journaled log g) (cs : List (Change ν)) :
    Journaled (log ++ (g.run cs).2.flatMap (·.events)) (g.run cs).1 := by
  induction cs generalizing log g with
  | nil => simpa [Graph.run] using h
  | cons c cs ih =>
    obtain ⟨past, hpast, rfl⟩ := h
    have hc : Journaled (journal past ++ (g.change c).events) (g.change c).state :=
      ⟨⟨g, c⟩ :: past, hpast.change c, rfl⟩
    simpa [Graph.run, List.append_assoc] using ih hc

theorem Rearranged.fits {g' : Graph ν d} {A : Shape ν d} (hr : g.Rearranged g') (h : g.Fits A) : g'.Fits A where
  nodes x := by rw [hr.hasNode_eq, h.nodes]
  edges u v := by rw [hr.hasEdge_eq, h.edges]

variable [EquivBEq ν]

/-- The journal of a history is read up to the last change, and then the entries of that change are added. -/
theorem Traced.journal_told {past : List (Past ν d)} (h : Traced past g) :
    g.Fits ((Shape.empty ν d).replay (journal past)) ∧ (Shape.empty ν d).Accounts (journal past) ∧
      g.edgeCount + (journal past).countP Event.isErasedEdge + Event.degrees (journal past) =
        (journal past).countP Event.isNewEdge := by
  induction h with
  | empty selfLoops => exact ⟨fits_empty d selfLoops, trivial, rfl⟩
  | @change past g h c ih =>
    obtain ⟨hfits, haccounts, hbalance⟩ := ih
    have hc : (g.change c).Told ((Shape.empty ν d).replay (journal past)) g.edgeCount := h.sound.told_change hfits c
    have hjournal : journal (⟨g, c⟩ :: past) = journal past ++ (g.change c).events := rfl
    rw [hjournal]
    refine ⟨?_, Shape.accounts_append haccounts hc.accounts, ?_⟩
    · rw [Shape.replay_append]
      exact hc.fits
    · have hcount := hc.balance
      rw [List.countP_append, List.countP_append, Event.degrees_append]
      omega
  | rearranged _ hr ih =>
    obtain ⟨hfits, haccounts, hbalance⟩ := ih
    exact ⟨hr.fits hfits, haccounts, by rw [hr.edgeCount, hbalance]⟩

/-- The journal tells of the graph. -/
structure ToldBy (log : List (Event ν)) (g : Graph ν d) : Prop where
  /-- Read from the beginning, it leads to the nodes and the edges of the graph. -/
  fits : g.Fits ((Shape.empty ν d).replay log)
  /-- Every entry is true of what the entries before it lead to. -/
  accounts : (Shape.empty ν d).Accounts log
  /-- The edges are those that came in new, without those that were erased and those that went with a node. -/
  balance : g.edges.size + log.countP Event.isErasedEdge + Event.degrees log = log.countP Event.isNewEdge
  /-- What the next call notes fits its answer and what it does. -/
  noted : ∀ c, (g.change c).Noted g
  framed : ∀ x, ∃ inner, (g.change (.eraseNode x)).events = .erasureEntered :: (inner ++ [.erasureLeft]) ∧
    ∀ entry ∈ inner, entry.isFrame = false
  unframed : ∀ c, (∀ x, c ≠ .eraseNode x) → ∀ entry ∈ (g.change c).events, entry.isFrame = false

/-- Whatever changes led to a graph, the journal of them alone tells its nodes, its edges and their number, and no
entry of it is wrong. -/
theorem journal_tells (h : Journaled log g) : ToldBy log g := by
  obtain ⟨past, h, rfl⟩ := h
  obtain ⟨hfits, haccounts, hbalance⟩ := h.journal_told
  exact ⟨hfits, haccounts, hbalance, h.sound.noted_change, g.framed_eraseNode, fun _ => g.unframed_change⟩

/-- A self-loop put in and named again in another form, an edge beside it, a pair of the wrong kind that fails its
caller, and the erasure of the node at all of this: the node takes two edges along. -/
theorem journal_tells_loop :
    let x : Node Atom := .pair (.unordered (.atom (.integer 1)) (.atom (.integer 2)))
    let x' : Node Atom := .pair (.unordered (.atom (.integer 2)) (.atom (.integer 1)))
    let y : Node Atom := .atom (.integer 3)
    let cs := [.insertEdge .checked x x', .insertEdge .checked x' x, .insertEdge .checked y x,
      .insertPair .asserted (.ordered x y), .eraseNode x', .eraseNode x]
    let r := (empty .undirected true : Graph (Node Atom) .undirected).run cs
    let log := r.2.flatMap (·.events)
    Journaled log r.1 ∧ ToldBy log r.1 ∧ log.countP Event.isNewEdge = 2 ∧ Event.degrees log = 2 ∧
      r.1.edges.size = 0 ∧ log.length = 9 := by
  intro x x' y cs r log
  have hempty : Journaled [] (empty .undirected true : Graph (Node Atom) .undirected) := ⟨[], .empty true, rfl⟩
  have h : Journaled log r.1 := hempty.run cs
  exact ⟨h, journal_tells h, by decide +kernel, by decide +kernel, by decide +kernel, by decide +kernel⟩

end Graph

end GraphViews
