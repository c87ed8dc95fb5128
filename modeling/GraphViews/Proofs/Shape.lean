import GraphViews.Node.Atom
import GraphViews.Proofs.Sound
import Mathlib.Data.List.Forall2
/-!
# Graphs as sets of nodes and of pairs

A shape is what a graph is about: which nodes there are, and from which node to which there is an edge. It has
no records, no count and no order, and it does not tell equal nodes apart. Each change acts on a shape in the
plainest way, and `Sound.fits_change` says that a graph follows its shape through every change: in what it
holds, in what it answers, and in which changes it refuses.
-/

namespace GraphViews

/-- Whether the edge from `u` to `v` goes from `a` to `b`, as it is or, if it has no direction, turned around. -/
def EdgeKind.goes {ν : Type} [BEq ν] (d : EdgeKind) (u v a b : ν) : Bool :=
  (u == a && v == b) || (!d.isDirected && v == a && u == b)

theorem EdgeKind.goes_eq {ν : Type} [BEq ν] (d : EdgeKind) (u v a b : ν) :
    d.goes u v a b = (d.edge u v == d.edge a b) := by
  rw [goes, edge_beq_edge]
  cases d <;> simp [Bool.and_comm]

theorem EdgeKind.goes_congr {ν : Type} [BEq ν] [EquivBEq ν] (d : EdgeKind) (u v : ν) {a b a' b' : ν} (ha : a == a')
    (hb : b == b') : d.goes u v a b = d.goes u v a' b' := by
  rw [goes, goes, BEq.congr_right ha, BEq.congr_right hb, BEq.congr_right ha, BEq.congr_right hb]

theorem EdgeKind.goes_swap {ν : Type} [BEq ν] (u v a b : ν) : undirected.goes u v a b = undirected.goes u v b a := by
  rw [goes, goes, Bool.or_comm, isDirected_undirected, Bool.not_false, Bool.true_and, Bool.true_and,
    Bool.and_comm (v == a), Bool.and_comm (u == a)]

/-- A set of nodes and a set of pairs of them, up to equality of nodes. Without directions, a pair comes with the
swapped pair. -/
@[ext]
structure Shape (ν : Type) [BEq ν] (d : EdgeKind) where
  nodes : ν → Bool
  edges : ν → ν → Bool
  nodes_congr : ∀ {x y}, x == y → nodes x = nodes y
  edges_congr : ∀ {u v a b}, u == a → v == b → edges u v = edges a b
  edges_swap : d = .undirected → ∀ u v, edges u v = edges v u
  ends_of_edge : ∀ {u v}, edges u v → nodes u ∧ nodes v

namespace Shape

variable {ν : Type} [BEq ν] {d : EdgeKind}

def empty (ν : Type) [BEq ν] (d : EdgeKind) : Shape ν d where
  nodes _ := false
  edges _ _ := false
  nodes_congr _ := rfl
  edges_congr _ _ := rfl
  edges_swap _ _ _ := rfl
  ends_of_edge h := by cases h

/-- Whether there is an edge that `p` names. -/
def hasPair (A : Shape ν d) (p : Ends ν) : Bool := d.admits p && A.edges p.fst p.snd

theorem edges_eq_of_beq (A : Shape ν d) {u v a b : ν} (h : d.edge u v == d.edge a b) : A.edges u v = A.edges a b := by
  rw [d.edge_beq_edge, Bool.or_eq_true, Bool.and_eq_true, Bool.and_eq_true, Bool.and_eq_true] at h
  rcases h with ⟨hu, hv⟩ | ⟨⟨hd, hu⟩, hv⟩
  · exact A.edges_congr hu hv
  · have hd' : d = .undirected := by
      cases d with
      | directed => cases hd
      | undirected => rfl
    rw [A.edges_swap hd' u v]
    exact A.edges_congr hv hu

section
variable [EquivBEq ν]

def addNode (A : Shape ν d) (x : ν) : Shape ν d where
  nodes y := x == y || A.nodes y
  edges := A.edges
  nodes_congr h := by rw [BEq.congr_right h, A.nodes_congr h]
  edges_congr := A.edges_congr
  edges_swap := A.edges_swap
  ends_of_edge h := by simp [A.ends_of_edge h]

/-- Adds `u` and `v` to the nodes and `(u, v)` to the pairs, also `(v, u)` if there are no directions. -/
def putEdge (A : Shape ν d) (u v : ν) : Shape ν d where
  nodes y := u == y || v == y || A.nodes y
  edges a b := d.goes u v a b || A.edges a b
  nodes_congr h := by rw [BEq.congr_right h, BEq.congr_right h, A.nodes_congr h]
  edges_congr ha hb := by rw [d.goes_congr u v ha hb, A.edges_congr ha hb]
  edges_swap hd a b := by
    subst hd
    rw [A.edges_swap rfl a b, EdgeKind.goes_swap]
  ends_of_edge {a b} h := by
    rw [EdgeKind.goes, Bool.or_eq_true, Bool.or_eq_true] at h
    rcases h with (h | h) | h
    · obtain ⟨hu, hv⟩ := Bool.and_eq_true_iff.1 h
      simp [hu, hv]
    · obtain ⟨hv, hu⟩ := Bool.and_eq_true_iff.1 h
      simp [(Bool.and_eq_true_iff.1 hv).2, hu]
    · simp [A.ends_of_edge h]

/-- Takes `(u, v)` out of the pairs, also `(v, u)` if there are no directions. -/
def removeEdge (A : Shape ν d) (u v : ν) : Shape ν d where
  nodes := A.nodes
  edges a b := A.edges a b && !d.goes u v a b
  nodes_congr := A.nodes_congr
  edges_congr ha hb := by rw [d.goes_congr u v ha hb, A.edges_congr ha hb]
  edges_swap hd a b := by
    subst hd
    rw [A.edges_swap rfl a b, EdgeKind.goes_swap]
  ends_of_edge h := A.ends_of_edge (Bool.and_eq_true_iff.1 h).1

/-- Takes `x` out of the nodes, and every pair with `x` out of the pairs. -/
def removeNode (A : Shape ν d) (x : ν) : Shape ν d where
  nodes y := A.nodes y && !(x == y)
  edges a b := A.edges a b && !(x == a || x == b)
  nodes_congr h := by rw [BEq.congr_right h, A.nodes_congr h]
  edges_congr ha hb := by rw [BEq.congr_right ha, BEq.congr_right hb, A.edges_congr ha hb]
  edges_swap hd a b := by rw [A.edges_swap hd a b, Bool.or_comm]
  ends_of_edge h := by
    simp only [Bool.and_eq_true, Bool.not_eq_true', Bool.or_eq_false_iff] at h
    obtain ⟨he, ha, hb⟩ := h
    simp [A.ends_of_edge he, ha, hb]

/-! ### Changes -/

/-- Puts in the edge from `u` to `v` and tells whether it was missing; refuses a self-loop against the policy. -/
def insertEdge (selfLoops : Bool) (A : Shape ν d) (u v : ν) : Option Bool × Shape ν d :=
  if !selfLoops && u == v then (none, A) else (some (!A.edges u v), A.putEdge u v)

/-- Makes one change and tells what a graph answers to it, `none` if it refuses. A pair that does not name an
edge is refused; any other stands for its two ends. -/
def step (selfLoops : Bool) (A : Shape ν d) : Change ν → Option Bool × Shape ν d
  | .insertNode x => (some (!A.nodes x), A.addNode x)
  | .eraseNode x => (some (A.nodes x), A.removeNode x)
  | .insertEdge _ u v => A.insertEdge selfLoops u v
  | .eraseEdge u v => (some (A.edges u v), A.removeEdge u v)
  | .insertPair _ p => if d.admits p then A.insertEdge selfLoops p.fst p.snd else (none, A)
  | .erasePair _ p => if d.admits p then (some (A.edges p.fst p.snd), A.removeEdge p.fst p.snd) else (none, A)

/-- Makes the changes in order; gives the answer to each and the shape after it. -/
def run (selfLoops : Bool) (A : Shape ν d) : List (Change ν) → List (Option Bool × Shape ν d)
  | [] => []
  | c :: cs => A.step selfLoops c :: (A.step selfLoops c).2.run selfLoops cs

end

end Shape

namespace Graph

variable {ν : Type} [BEq ν] {d : EdgeKind}

/-- The graph has the nodes and the edges of the shape. -/
structure Fits (g : Graph ν d) (A : Shape ν d) : Prop where
  nodes : ∀ x, g.hasNode x = A.nodes x
  edges : ∀ u v, g.hasEdge u v = A.edges u v

theorem fits_empty (d : EdgeKind) (selfLoops : Bool) : (empty d selfLoops).Fits (.empty ν d) where
  nodes _ := rfl
  edges _ _ := rfl

/-- The count of a sound graph is the number of edges of its shape. -/
theorem Sound.hasCount_of_fits {g : Graph ν d} (hg : g.Sound) {A : Shape ν d} (h : g.Fits A) :
    HasCount A.hasPair g.edges.size :=
  hg.counted.congr fun p => by rw [hasPair, Shape.hasPair, h.edges]

variable [EquivBEq ν] {g : Graph ν d} {A : Shape ν d}

namespace Fits

theorem withNode (h : g.Fits A) (x : ν) : (g.withNode x).Fits (A.addNode x) where
  nodes y := by rw [hasNode_withNode, h.nodes, Shape.addNode]
  edges u v := by rw [hasEdge_withNode, h.edges, Shape.addNode]

theorem withEdge (h : g.Fits A) (u v : ν) : (g.withEdge u v).Fits (A.putEdge u v) where
  nodes x := by rw [hasNode_withEdge, h.nodes, Shape.putEdge]
  edges a b := by
    rw [hasEdge_withEdge, h.edges, ← d.goes_eq]
    rfl

theorem withoutEdge (h : g.Fits A) (u v : ν) : (g.withoutEdge u v).Fits (A.removeEdge u v) where
  nodes x := by rw [hasNode_withoutEdge, h.nodes, Shape.removeEdge]
  edges a b := by
    rw [hasEdge_withoutEdge, h.edges, ← d.goes_eq]
    rfl

/-- Only the erasure of a node needs a sound graph: it looks up the neighbors of that node and no other record. -/
theorem withoutNode (h : g.Fits A) (hg : g.Sound) (x : ν) : (g.withoutNode x).Fits (A.removeNode x) where
  nodes y := by rw [hasNode_withoutNode hg.returned, h.nodes, Shape.removeNode]
  edges a b := by rw [hasEdge_withoutNode hg.returned, h.edges, Shape.removeNode]

end Fits

end Graph

/-- The effect of a change on a graph is what the step of a shape tells: the answer, the nodes and edges after it,
and how many edges these are. -/
structure Effect.Follows {ν : Type} [BEq ν] {d : EdgeKind} (e : Effect ν (Graph ν d))
    (r : Option Bool × Shape ν d) : Prop where
  answer : e.answer.toOption = r.1
  state : e.state.Fits r.2
  size : HasCount r.2.hasPair e.state.edges.size

namespace Graph

variable {ν : Type} [BEq ν] [EquivBEq ν] {d : EdgeKind} {g : Graph ν d}

/-- The shape of a sound graph. -/
def Sound.shape (hg : g.Sound) : Shape ν d where
  nodes := g.hasNode
  edges := g.hasEdge
  nodes_congr := g.hasNode_congr
  edges_congr := g.hasEdge_congr
  edges_swap hd u v := by
    subst hd
    exact hg.hasEdge_congr (by simp [EdgeKind.edge_beq_edge])
  ends_of_edge := hg.hasNode_of_hasEdge

theorem Sound.fits_shape (hg : g.Sound) : g.Fits hg.shape := ⟨fun _ => rfl, fun _ _ => rfl⟩

variable {A : Shape ν d}

theorem Fits.insertEdge (h : g.Fits A) (s : Strictness) (u v : ν) :
    (g.insertEdge s u v).answer.toOption = (A.insertEdge g.selfLoops u v).1 ∧
      (g.insertEdge s u v).state.Fits (A.insertEdge g.selfLoops u v).2 := by
  rw [insertEdge_eq, Shape.insertEdge]
  split
  · exact ⟨rfl, h⟩
  · refine ⟨?_, h.withEdge u v⟩
    rw [← h.edges]
    rfl

theorem Sound.fits_change (hg : g.Sound) (h : g.Fits A) (c : Change ν) :
    (g.change c).answer.toOption = (A.step g.selfLoops c).1 ∧ (g.change c).state.Fits (A.step g.selfLoops c).2 := by
  cases c with
  | insertNode x =>
    refine ⟨?_, h.withNode x⟩
    rw [Shape.step, ← h.nodes]
    rfl
  | eraseNode x =>
    refine ⟨?_, h.withoutNode hg x⟩
    rw [Shape.step, ← h.nodes]
    rfl
  | insertEdge s u v => exact h.insertEdge s u v
  | eraseEdge u v =>
    refine ⟨?_, h.withoutEdge u v⟩
    rw [Shape.step, ← h.edges]
    rfl
  | insertPair s p =>
    rw [change_insertPair, Shape.step]
    split
    · exact h.insertEdge s p.fst p.snd
    · exact ⟨rfl, h⟩
  | erasePair s p =>
    rw [change_erasePair, Shape.step]
    split
    · refine ⟨?_, h.withoutEdge p.fst p.snd⟩
      rw [← h.edges]
      rfl
    · exact ⟨rfl, h⟩

theorem Sound.forall₂_run (hg : g.Sound) (h : g.Fits A) (cs : List (Change ν)) :
    List.Forall₂ Effect.Follows (g.run cs).2 (A.run g.selfLoops cs) := by
  induction cs generalizing g A with
  | nil => exact .nil
  | cons c cs ih =>
    obtain ⟨hanswer, hstate⟩ := hg.fits_change h c
    have hs : (g.change c).state.Sound := hg.change c
    have htail := ih hs hstate
    -- The shape is given the policy once for the whole run; the graph keeps it through every change.
    rw [selfLoops_change] at htail
    exact .cons ⟨hanswer, hstate, hs.hasCount_of_fits hstate⟩ htail

/-- From an empty graph on, whatever changes are made: each one's answer, the nodes and edges after it and their
number are those of the sets of nodes and pairs that the same changes make of the empty sets. -/
theorem run_refines_shape (d : EdgeKind) (selfLoops : Bool) (cs : List (Change ν)) :
    List.Forall₂ Effect.Follows ((empty d selfLoops).run cs).2 ((Shape.empty ν d).run selfLoops cs) :=
  (sound_empty d selfLoops).forall₂_run (fits_empty d selfLoops) cs

/-- One self-loop, named in four ways and once by a pair of the wrong kind, and then its node erased. -/
theorem run_refines_shape_loop :
    let x : Node Atom := .pair (.unordered (.atom (.integer 1)) (.atom (.integer 2)))
    let x' : Node Atom := .pair (.unordered (.atom (.integer 2)) (.atom (.integer 1)))
    let cs : List (Change (Node Atom)) := [.insertEdge .checked x x', .insertPair .checked (.unordered x' x),
      .insertPair .checked (.ordered x x), .eraseNode x', .eraseEdge x x]
    List.Forall₂ Effect.Follows ((empty .undirected true).run cs).2 ((Shape.empty _ .undirected).run true cs) ∧
      ((Shape.empty _ .undirected).run true cs).map (·.1) = [some true, some false, none, some true, some false] := by
  intro x x' cs
  exact ⟨run_refines_shape .undirected true cs, rfl⟩

end Graph

end GraphViews
