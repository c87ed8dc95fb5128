import GraphViews.Proofs.Comparing
import GraphViews.Proofs.Delimited
import GraphViews.Proofs.Loops
/-!
# What a quoted text tells

From a quoted text everything can be read off that went into it: from that of a node, which pairs it is built of, each
with its kind and its ends in the order given; from that of a set, its items in the order in which they came up; and
from that of a graph, its flags, its nodes and its edges. So graphs with equal quoted texts are equal, in whatever order
their records were gone through. Plain texts tell less, since a string may look like anything.

An atom's text shows where it ends (`Atom.delimited`), and on this the rest is built: `Delimited.node`,
`Delimited.quotedListing` and `Outline.quoted_injective`.
-/

namespace GraphViews

/-! ## Nodes and edges -/

theorem Atom.delimited (byCode : Char → Bool) :
    Delimited ['<', '[', '\x7d'] (Atom.written byCode).quoted where
  opens x := by
    cases x with
    | integer n => exact (delimited_integer.mono (by simp)).opens n
    | string s => exact (Quoted.delimited_text byCode).opens s
  unique {x y r r'} hr hr' h := by
    -- A string begins with a quote, which no number does.
    have hkind : ∀ (n : Int) (s : String) (r r' : List Char),
        (toString n).toList ++ r ≠ (Quoted.text byCode s).toList ++ r' := by
      intro n s r r'
      rw [Quoted.toList_text_append]
      exact delimited_integer.ne_cons (by simp) n r _
    cases x with
    | integer m =>
      cases y with
      | integer n =>
        obtain ⟨rfl, hrest⟩ := delimited_integer.unique hr hr' h
        exact ⟨rfl, hrest⟩
      | string t => exact absurd h (hkind m t r r')
    | string s =>
      cases y with
      | integer n => exact absurd h.symm (hkind n s r' r)
      | string t =>
        obtain ⟨rfl, hrest⟩ := (Quoted.delimited_text byCode).unique hr hr' h
        exact ⟨rfl, hrest⟩

section
variable {β : Type} {write : β → String}

theorem Node.toList_text_ordered_append (write : β → String) (s t : Node β) (r : List Char) :
    (Node.text write (.pair (.ordered s t))).toList ++ r =
      '<' :: ((s.text write).toList ++ (" -> ".toList ++ ((t.text write).toList ++ '>' :: r))) := by
  simp [Node.text]

theorem Node.toList_text_unordered_append (write : β → String) (u v : Node β) (r : List Char) :
    (Node.text write (.pair (.unordered u v))).toList ++ r =
      '[' :: ((u.text write).toList ++ (", ".toList ++ ((v.text write).toList ++ ']' :: r))) := by
  simp [Node.text]

/-- The brackets of a pair tell its kind, and after the first end stands what no number goes on with. -/
theorem Delimited.node (h : Delimited ['<', '[', '\x7d'] write) : Delimited ['\x7d'] (Node.text write) where
  opens x := by
    rcases x with a | ⟨s, t⟩ | ⟨u, v⟩
    · exact (h.mono (by simp)).opens a
    · exact ⟨'<', _, by simpa using Node.toList_text_ordered_append write s t [], by decide⟩
    · exact ⟨'[', _, by simpa using Node.toList_text_unordered_append write u v [], by decide⟩
  unique {x y r r'} hr hr' hxy := by
    induction x generalizing y r r' with
    | atom a =>
      rcases y with b | ⟨s', t'⟩ | ⟨u', v'⟩
      · obtain ⟨rfl, hrest⟩ := h.unique hr hr' hxy
        exact ⟨rfl, hrest⟩
      · rw [Node.toList_text_ordered_append] at hxy
        exact absurd hxy (h.ne_cons (by simp) a r _)
      · rw [Node.toList_text_unordered_append] at hxy
        exact absurd hxy (h.ne_cons (by simp) a r _)
    | ordered s t hs ht =>
      rw [Node.toList_text_ordered_append] at hxy
      rcases y with b | ⟨s', t'⟩ | ⟨u', v'⟩
      · exact absurd hxy.symm (h.ne_cons (by simp) b r' _)
      · rw [Node.toList_text_ordered_append] at hxy
        obtain ⟨rfl, hrest⟩ := hs (by simp) (by simp) (List.cons.inj hxy).2
        obtain ⟨rfl, hend⟩ := ht (by simp) (by simp) (List.append_cancel_left hrest)
        exact ⟨rfl, (List.cons.inj hend).2⟩
      · rw [Node.toList_text_unordered_append] at hxy
        exact absurd (List.cons.inj hxy).1 (by decide)
    | unordered u v hu hv =>
      rw [Node.toList_text_unordered_append] at hxy
      rcases y with b | ⟨s', t'⟩ | ⟨u', v'⟩
      · exact absurd hxy.symm (h.ne_cons (by simp) b r' _)
      · rw [Node.toList_text_ordered_append] at hxy
        exact absurd (List.cons.inj hxy).1 (by decide)
      · rw [Node.toList_text_unordered_append] at hxy
        obtain ⟨rfl, hrest⟩ := hu (by simp) (by simp) (List.cons.inj hxy).2
        obtain ⟨rfl, hend⟩ := hv (by simp) (by simp) (List.append_cancel_left hrest)
        exact ⟨rfl, (List.cons.inj hend).2⟩

/-- The text of an edge is that of the pair as a node. -/
theorem Delimited.ends (h : Delimited ['\x7d'] (Node.text write)) :
    Delimited ['\x7d'] (Ends.text (Node.text write)) where
  opens p := by
    rw [← Node.text_pair]
    exact h.opens (.pair p)
  unique {p q r r'} hr hr' hpq := by
    rw [← Node.text_pair, ← Node.text_pair] at hpq
    obtain ⟨hnode, hrest⟩ := h.unique hr hr' hpq
    exact ⟨Node.pair.inj hnode, hrest⟩

end

/-! ## Outlines -/

theorem delimited_flagText : Delimited [] flagText where
  opens b := by cases b <;> simp [flagText]
  unique {b c r r'} _ _ h := by cases b <;> cases c <;> simp_all [flagText]

namespace Outline

variable {ν : Type} [Written ν]

theorem toList_quoted (o : Outline ν) : o.quoted.toList =
    "AdjacencyListGraph \x7b is_directed: ".toList ++ ((flagText o.isDirected).toList ++
    (", allows_self_loops: ".toList ++ ((flagText o.selfLoops).toList ++
    (", nodes: ".toList ++ ((quotedListing o.nodes).toList ++
    (", edges: ".toList ++ ((quotedListing o.edges).toList ++ " \x7d".toList))))))) := by
  unfold quoted
  simp only [String.toList_append]
  simp only [List.append_assoc]

theorem quoted_injective (hnode : Delimited ['\x7d'] (Written.quoted : ν → String))
    (hedge : Delimited ['\x7d'] (Written.quoted : Ends ν → String)) {o p : Outline ν} (h : o.quoted = p.quoted) :
    o = p := by
  have hnodes := hnode.quotedListing (by simp)
  have hedges := hedge.quotedListing (by simp)
  have htexts := congrArg String.toList h
  rw [toList_quoted, toList_quoted, List.append_right_inj] at htexts
  obtain ⟨hdirected, hrest⟩ := delimited_flagText.unique (by simp) (by simp) htexts
  rw [List.append_right_inj] at hrest
  obtain ⟨hloops, hrest⟩ := delimited_flagText.unique (by simp) (by simp) hrest
  rw [List.append_right_inj] at hrest
  obtain ⟨hns, hrest⟩ := hnodes.unique (by simp) (by simp) hrest
  rw [List.append_right_inj] at hrest
  obtain ⟨hes, -⟩ := hedges.unique (by simp) (by simp) hrest
  cases o
  cases p
  simp_all

end Outline

/-! ## Sets and graphs -/

/-- Sets with the same items to list are equal, in whatever order these come up. -/
theorem Reading.Lawful.equal_of_lists {α : Type} [BEq α] [EquivBEq α] {a b : Reading α} (ha : a.Lawful)
    (hb : b.Lawful) {xs : List α} (hxa : a.Lists xs) (hxb : b.Lists xs) : a.equal b := by
  rw [ha.equal_iff hb]
  intro y
  rw [hxa.contains_eq, hxb.contains_eq]

namespace AnyGraph

variable {ν : Type} [BEq ν] {g h : AnyGraph ν} {o : Outline ν}

/-- An outline that a text of the graph may show: its nodes and edges come up as the records are gone through. -/
structure Outlined (g : AnyGraph ν) (o : Outline ν) : Prop where
  isDirected : o.isDirected = g.edgeKind.isDirected
  selfLoops : o.selfLoops = g.graph.selfLoops
  nodes : g.graph.Shows Graph.nodes o.nodes
  edges : g.graph.Shows Graph.edges o.edges

theorem outlined_survey [PartialEquivBEq ν] (g : AnyGraph ν) : g.Outlined g.survey.outline where
  isDirected := rfl
  selfLoops := rfl
  nodes := g.graph.shows_of_perm (.refl _)
  edges := g.graph.shows_of_perm (.refl _)

theorem Outlined.edgeKind_eq (ho : g.Outlined o) (hp : h.Outlined o) : g.edgeKind = h.edgeKind := by
  have hdirected := ho.isDirected.symm.trans hp.isDirected
  revert hdirected
  cases g.edgeKind <;> cases h.edgeKind <;> simp

theorem Outlined.equal [EquivBEq ν] (ho : g.Outlined o) (hp : h.Outlined o) (hg : g.graph.Sound)
    (hh : h.graph.Sound) : g.survey.equal h.survey := by
  have hnodes : g.graph.nodes.equal h.graph.nodes :=
    g.graph.lawful_nodes.equal_of_lists h.graph.lawful_nodes (ho.nodes.lists Graph.handsOut_nodes hg)
      (hp.nodes.lists Graph.handsOut_nodes hh)
  have hedges : g.graph.edges.equal h.graph.edges :=
    hg.lawful_edges.equal_of_lists hh.lawful_edges (ho.edges.lists Graph.handsOut_edges hg)
      (hp.edges.lists Graph.handsOut_edges hh)
  have hkind : g.edgeKind = h.edgeKind := ho.edgeKind_eq hp
  simp [survey, Survey.equal, Graph.survey, hkind, hnodes, hedges]

end AnyGraph

/-! ## Everything that is written -/

/-- The quoted texts of nodes over the atoms `β`, and of all that is made of such nodes, tell what was written. -/
structure QuotedTextsTell (β : Type) [BEq β] [Written β] : Prop where
  /-- Not just equal nodes, but the same one: of the same kinds and with the ends in the same order, at any depth. -/
  nodes : ∀ x y : Node β, Written.quoted x = Written.quoted y → x = y
  edges : ∀ p q : Ends (Node β), Written.quoted p = Written.quoted q → p = q
  node_edge : ∀ (x : Node β) (p : Ends (Node β)), Written.quoted x = Written.quoted p ↔ x = .pair p
  listings : ∀ (kind : ItemKind) (xs ys : List (kind.Item (Node β))), quotedListing xs = quotedListing ys → xs = ys
  /-- Sets of any make, in one store or in two. -/
  sets : ∀ s t : Store (Node β), s.Grown → t.Grown → ∀ (kind : ItemKind) (v w : View (Leaf (Node β) kind)) (xs ys),
    (s.read v).Lists xs → (t.read w).Lists ys → quotedListing xs = quotedListing ys →
    xs = ys ∧ (s.read v).equal (t.read w)
  graphs : ∀ g h : AnyGraph (Node β), g.graph.Reachable → h.graph.Reachable → ∀ o p : Outline (Node β),
    g.Outlined o → h.Outlined p → o.quoted = p.quoted →
    o = p ∧ g.edgeKind = h.edgeKind ∧ g.graph.selfLoops = h.graph.selfLoops ∧ g.survey.equal h.survey

/-- The plain texts of things that are not even equal may be the same. -/
structure PlainTextsMislead (β : Type) [BEq β] [Written β] : Prop where
  nodes : ∃ x y : Node β, Written.plain x = Written.plain y ∧ (x == y) = false
  edges : ∃ p q : Ends (Node β), Written.plain p = Written.plain q ∧ (p == q) = false
  sets : ∃ a b : ItemSet (Node β), plainListing a.items = plainListing b.items ∧ (a == b) = false
  graphs : ∃ g h : AnyGraph (Node β), g.graph.Reachable ∧ h.graph.Reachable ∧
    g.survey.outline.plain = h.survey.outline.plain ∧ g.survey.equal h.survey = false

theorem quotedTextsTell_of_delimited {β : Type} [BEq β] [EquivBEq β] [Written β]
    (h : Delimited ['<', '[', '\x7d'] (Written.quoted : β → String)) : QuotedTextsTell β := by
  have hnode : Delimited ['\x7d'] (Written.quoted : Node β → String) := h.node
  have hedge : Delimited ['\x7d'] (Written.quoted : Ends (Node β) → String) := hnode.ends
  have hlistings : ∀ (kind : ItemKind) (xs ys : List (kind.Item (Node β))), quotedListing xs = quotedListing ys →
      xs = ys := by
    intro kind xs ys hxy
    cases kind with
    | node => exact (hnode.quotedListing (by simp)).injective hxy
    | edge => exact (hedge.quotedListing (by simp)).injective hxy
  refine ⟨fun x y => hnode.injective, fun p q => hedge.injective, fun x p => ?_, hlistings, ?_, ?_⟩
  · have htext : (Written.quoted p : String) = Written.quoted (Node.pair p) := (Node.text_pair _ p).symm
    rw [htext]
    exact ⟨hnode.injective, congrArg _⟩
  · intro s t hs ht kind v w xs ys hv hw hxy
    obtain rfl := hlistings kind xs ys hxy
    exact ⟨rfl, (hs.lawful_read v).equal_of_lists (ht.lawful_read w) hv hw⟩
  · intro g h hg hh o p ho hp hop
    obtain rfl := Outline.quoted_injective hnode hedge hop
    exact ⟨rfl, ho.edgeKind_eq hp, ho.selfLoops.symm.trans hp.selfLoops, ho.equal hp hg.sound hh.sound⟩

/-- Over numbers and strings quoted texts tell what was written, whichever characters are written by their code; plain
texts do not, since a string may be written like a number or like several. -/
theorem quoted_texts_tell (byCode : Char → Bool) :
    @QuotedTextsTell Atom _ (Atom.written byCode) ∧ @PlainTextsMislead Atom _ (Atom.written byCode) := by
  let _ := Atom.written byCode
  refine ⟨quotedTextsTell_of_delimited (Atom.delimited byCode), ?_⟩
  let number : Node Atom := .atom (.integer 1)
  let text : Node Atom := .atom (.string "1")
  exact {
    nodes := ⟨number, text, rfl, rfl⟩
    edges := ⟨.ordered number number, .ordered number text, rfl, rfl⟩
    sets := ⟨.ofList [number, text], .ofList [.atom (.string "1, 1")], rfl, rfl⟩
    graphs := ⟨⟨.directed, ((Graph.empty .directed false).change (.insertNode number)).state⟩,
      ⟨.directed, ((Graph.empty .directed false).change (.insertNode text)).state⟩,
      (Graph.Reachable.empty false).change _, (Graph.Reachable.empty false).change _, rfl, rfl⟩ }

/-- Two graphs whose nodes came in opposite orders, shown in one order, with an arrow and a quote within a string and a
sign within a node. -/
theorem quoted_texts_tell_arrow :
    let x : Node Atom := .atom (.string "a -> \"")
    let y : Node Atom := .pair (.unordered (.atom (.integer (-1))) (.atom (.integer 2)))
    let g := ((Graph.empty .directed false).run [.insertNode x, .insertEdge .checked x y]).1
    let h := ((Graph.empty .directed false).run [.insertNode y, .insertEdge .checked x y]).1
    let o : Outline (Node Atom) := ⟨true, false, [x, y], [.ordered x y]⟩
    g.nodes.items = [y, x] ∧ h.nodes.items = [x, y] ∧
      AnyGraph.Outlined ⟨.directed, g⟩ o ∧ AnyGraph.Outlined ⟨.directed, h⟩ o ∧
      o.quoted = "AdjacencyListGraph \x7b is_directed: true, allows_self_loops: false, " ++
        "nodes: \x7b\"a -> \\\"\", [-1, 2]\x7d, edges: \x7b<\"a -> \\\"\" -> [-1, 2]>\x7d \x7d" ∧
      g.survey.equal h.survey := by
  intro x y g h o
  have hg : g.Reachable := ((Graph.Reachable.empty false).run _).1
  have hh : h.Reachable := ((Graph.Reachable.empty false).run _).1
  have hgo : AnyGraph.Outlined ⟨.directed, g⟩ o :=
    ⟨rfl, rfl, g.shows_of_perm (.swap y x []), g.shows_of_perm (.refl _)⟩
  have hho : AnyGraph.Outlined ⟨.directed, h⟩ o := AnyGraph.outlined_survey ⟨.directed, h⟩
  obtain ⟨-, -, -, hequal⟩ := (quoted_texts_tell Quoted.isControl).1.graphs _ _ hg hh o o hgo hho rfl
  exact ⟨rfl, rfl, hgo, hho, by decide +kernel, hequal⟩

end GraphViews
