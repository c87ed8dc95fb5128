import GraphViews.Proofs.Combined
import GraphViews.Proofs.Forms
/-!
# The laws of the union

A union takes all items of its first operand and what the second adds to them, so it is commutative up to equality
only: an item of both operands is written as the first writes it (`Reading.Lawful.form?_union`). Regrouping changes
nothing at all (`Reading.union_assoc`), because what a third operand adds to the first two is what it adds to the
second, less what the first has.
-/

namespace GraphViews

variable {α : Type}

namespace Reading

/-! ## Regrouping -/

theorem contains_union (a b : Reading α) (x : α) : (a.union b).contains x = (a.contains x || b.contains x) := rfl

theorem filter_union (a b : Reading α) (xs : List α) : (xs.filter fun x => !(a.union b).contains x) =
    (xs.filter fun x => !b.contains x).filter fun x => !a.contains x := by
  rw [List.filter_filter]
  refine List.filter_congr fun x _ => ?_
  rw [contains_union, Bool.not_or]

/-- All four answers are the same, in whichever order three sets are united. -/
theorem union_assoc (a b c : Reading α) : (a.union b).union c = a.union (b.union c) := by
  have hrest : (c.items.filter fun x => !(a.union b).contains x) =
      (c.items.filter fun x => !b.contains x).filter fun x => !a.contains x := a.filter_union b c.items
  have hitems : ((a.union b).union c).items = (a.union (b.union c)).items := by
    calc ((a.union b).union c).items
      _ = (a.items ++ b.items.filter fun x => !a.contains x) ++ c.items.filter fun x => !(a.union b).contains x := rfl
      _ = a.items ++ (b.items ++ c.items.filter fun x => !b.contains x).filter fun x => !a.contains x := by
        rw [hrest, List.append_assoc, List.filter_append]
  have hsize : ((a.union b).union c).size = (a.union (b.union c)).size := by
    calc ((a.union b).union c).size
      _ = a.size + (b.items.filter fun x => !a.contains x).length +
          (c.items.filter fun x => !(a.union b).contains x).length := rfl
      _ = a.size + ((b.items ++ c.items.filter fun x => !b.contains x).filter fun x => !a.contains x).length := by
        rw [hrest, Nat.add_assoc, ← List.length_append, List.filter_append]
  have hcontains : ((a.union b).union c).contains = (a.union (b.union c)).contains := by
    funext x
    exact Bool.or_assoc ..
  have hempty : ((a.union b).union c).isEmpty = (a.union (b.union c)).isEmpty := Bool.and_assoc ..
  rw [Reading.mk.injEq]
  exact ⟨hcontains, hsize, hitems, hempty⟩

namespace Lawful

variable [BEq α] {a b a' b' e : Reading α}

theorem contains_of_isEmpty (he : e.Lawful) (h : e.isEmpty) (x : α) : e.contains x = false := by
  rw [he.isEmpty_eq, beq_iff_eq, he.size_eq, List.length_eq_zero_iff] at h
  rw [he.contains_eq, h]
  rfl

/-- The second operand adds its items that equal none of the first. -/
theorem mem_rest (ha : a.Lawful) (y : α) :
    y ∈ b.items.filter (fun y => !a.contains y) ↔ y ∈ b.items ∧ ∀ x ∈ a.items, (y == x) = false := by
  rw [List.mem_filter, ha.contains_eq, List.contains_eq_any_beq, Bool.not_eq_true', List.any_eq_false]
  simp only [Bool.not_eq_true]

variable [EquivBEq α]

/-! ## Up to equality -/

theorem union_comm (ha : a.Lawful) (hb : b.Lawful) : (a.union b).equal (b.union a) :=
  ((ha.union hb).equal_iff (hb.union ha)).2 fun _ => Bool.or_comm ..

theorem union_self (ha : a.Lawful) : (a.union a).equal a :=
  ((ha.union ha).equal_iff ha).2 fun _ => Bool.or_self _

theorem union_empty (ha : a.Lawful) (he : e.Lawful) (h : e.isEmpty) : (a.union e).equal a := by
  refine ((ha.union he).equal_iff ha).2 fun x => ?_
  rw [contains_union, he.contains_of_isEmpty h, Bool.or_false]

theorem empty_union (ha : a.Lawful) (he : e.Lawful) (h : e.isEmpty) : (e.union a).equal a := by
  refine ((he.union ha).equal_iff ha).2 fun x => ?_
  rw [contains_union, he.contains_of_isEmpty h, Bool.false_or]

theorem union_congr (ha : a.Lawful) (ha' : a'.Lawful) (hb : b.Lawful) (hb' : b'.Lawful) (haa : a.equal a')
    (hbb : b.equal b') : (a.union b).equal (a'.union b') := by
  rw [ha.equal_iff ha'] at haa
  rw [hb.equal_iff hb'] at hbb
  refine ((ha.union hb).equal_iff (ha'.union hb')).2 fun x => ?_
  rw [contains_union, contains_union, haa, hbb]

/-! ## How items are written, and how many there are -/

/-- The first operand that contains an item tells how it is written. -/
theorem form?_union (ha : a.Lawful) (b : Reading α) (x : α) :
    form? (a.union b).items x = (form? a.items x).or (form? b.items x) := by
  have hsplit : form? (a.union b).items x =
      (form? a.items x).or (form? (b.items.filter fun y => !a.contains y) x) := form?_append ..
  rw [hsplit, form?_filter b.items fun h => by rw [ha.contains_congr h]]
  cases hx : a.contains x with
  | true =>
    have hsome : (form? a.items x).isSome := by rw [isSome_form?, ← ha.contains_eq, hx]
    rw [Option.or_of_isSome hsome, Option.or_of_isSome hsome]
  | false => rfl

/-- What is in both operands is counted twice by their sizes, and once by the size of the union. -/
theorem size_union (ha : a.Lawful) (hb : b.Lawful) {n : Nat} (hn : HasCount (fun x => a.contains x && b.contains x) n) :
    (a.union b).size + n = a.size + b.size := by
  have hsub : ∀ x, (a.contains x && b.contains x) = true → b.contains x := fun x hx => (Bool.and_eq_true_iff.1 hx).2
  -- The union counts `a`, and of `b` what is not in both.
  have hcount : HasCount (fun x => a.contains x || b.contains x && !(a.contains x && b.contains x))
      (a.size + (b.size - n)) :=
    ha.hasCount.or (hb.hasCount.sub hn hsub) fun x hx => by simp [hx]
  have hunion : (a.union b).size = a.size + (b.size - n) := by
    refine (ha.union hb).hasCount.unique (hcount.congr fun x => ?_)
    rw [contains_union]
    cases a.contains x <;> simp
  have hle : n ≤ b.size := hn.le hb.hasCount hsub
  omega

end Lawful

end Reading

/-! ## The laws together -/

namespace View

variable {ι : Type} [BEq α]

/-- The laws of the union of sets whose leaves answer as `look` says. -/
structure UnionLaws (look : ι → Reading α) : Prop where
  comm : ∀ a b : View ι, ((a.union b).read look).equal ((b.union a).read look)
  self : ∀ a : View ι, ((a.union a).read look).equal (a.read look)
  empty : ∀ a e : View ι, (e.read look).isEmpty →
    ((a.union e).read look).equal (a.read look) ∧ ((e.union a).read look).equal (a.read look)
  congr : ∀ a a' b b' : View ι, (a.read look).equal (a'.read look) → (b.read look).equal (b'.read look) →
    ((a.union b).read look).equal ((a'.union b').read look)
  /-- Regrouping changes no answer, neither the items nor their order nor how they are written. -/
  assoc : ∀ a b c : View ι, ((a.union b).union c).read look = (a.union (b.union c)).read look ∧
    Cursor.drain look (Cursor.start look ((a.union b).union c)) =
      Cursor.drain look (Cursor.start look (a.union (b.union c)))
  /-- Each item is written as the leftmost operand writes it that has it. -/
  form : ∀ a b c : View ι, ∀ x, form? (((a.union b).union c).read look).items x =
    (form? (a.read look).items x).or ((form? (b.read look).items x).or (form? (c.read look).items x))
  /-- First the items of `a` come up, then those items of `b` that equal none of them. -/
  order : ∀ a b : View ι, ∃ rest : List α, rest.Sublist (b.read look).items ∧
    Cursor.drain look (Cursor.start look (a.union b)) = Cursor.drain look (Cursor.start look a) ++ rest ∧
    ∀ y, y ∈ rest ↔ y ∈ (b.read look).items ∧ ∀ x ∈ (a.read look).items, (y == x) = false
  size : ∀ a b : View ι, ∃ common,
    HasCount (fun x => (a.read look).contains x && (b.read look).contains x) common ∧
    ((a.union b).read look).size + common = (a.read look).size + (b.read look).size

/-- The union of well-formed sets, of any kinds and themselves unions or not, is commutative and idempotent, has the
empty set on either side for an identity, goes along with equality, and is associative on the nose. -/
theorem unions_lawful [EquivBEq α] {look : ι → Reading α} (h : ∀ l, (look l).Lawful) : UnionLaws look := by
  have hread : ∀ v : View ι, (v.read look).Lawful := fun v => lawful_read fun l _ => h l
  have hassoc : ∀ a b c : View ι, ((a.union b).union c).read look = (a.union (b.union c)).read look :=
    fun a b c => Reading.union_assoc ..
  exact {
    comm := fun a b => (hread a).union_comm (hread b)
    self := fun a => (hread a).union_self
    empty := fun a e he => ⟨(hread a).union_empty (hread e) he, (hread a).empty_union (hread e) he⟩
    congr := fun a a' b b' => (hread a).union_congr (hread a') (hread b) (hread b')
    assoc := fun a b c => ⟨hassoc a b c, by rw [Cursor.drain_start, Cursor.drain_start, hassoc]⟩
    form := fun a b c x => by
      rw [hassoc, read, (hread a).form?_union, read, (hread b).form?_union]
    order := fun a b => by
      refine ⟨_, List.filter_sublist, ?_, (hread a).mem_rest⟩
      rw [Cursor.drain_start, Cursor.drain_start]
      rfl
    size := fun a b => by
      have hcommon := (hread a).hasCount_and (hread b).contains_congr
      exact ⟨_, hcommon, (hread a).size_union (hread b) hcommon⟩ }

/-- Two sets and the nodes of a graph, all with one node, which the first of them writes in its own way. -/
theorem unions_lawful_overlapping :
    let x : Node Atom := .pair (.unordered (.atom (.integer 1)) (.atom (.integer 2)))
    let x' : Node Atom := .pair (.unordered (.atom (.integer 2)) (.atom (.integer 1)))
    let y : Node Atom := .atom (.integer 3)
    let g : AnyGraph (Node Atom) := ⟨.undirected, ({ selfLoops := true } : Settings .undirected).build⟩
    let set : ItemSet (ItemKind.node.Item (Node Atom)) := ItemSet.ofList [x]
    let set' : ItemSet (ItemKind.node.Item (Node Atom)) := ItemSet.ofList [x', y]
    let insertion : Mutation (Node Atom) := .graph 0 (.insertEdge .checked x' y)
    let s := (((({} : Store (Node Atom)).addGraph g).addSet set).addSet set').change insertion
    let a : View (Leaf (Node Atom) .node) := .leaf (.stored .node 0)
    let b : View (Leaf (Node Atom) .node) := .held .cell (.leaf (.stored .node 1))
    let c : View (Leaf (Node Atom) .node) := .leaf (.nodes 0)
    (∀ l : Leaf (Node Atom) .node, (s.look l).Lawful) ∧
      (s.read (.union a (.union b c))).items = [x, y] ∧ (s.read (.union (.union b a) c)).items = [y, x'] ∧
      (s.read (.union a b)).equal (s.read (.union b a)) ∧
      s.read (.union (.union a b) c) = s.read (.union a (.union b c)) := by
  intro x x' y g set set' insertion s a b c
  have hs : s.Grown := (((Store.Grown.empty.build .undirected { selfLoops := true }).addSet set).addSet set').change _
  have hlook : ∀ l : Leaf (Node Atom) .node, (s.look l).Lawful := hs.lawful_look
  have hlaws := unions_lawful hlook
  exact ⟨hlook, rfl, rfl, hlaws.comm a b, (hlaws.assoc a b c).1⟩

end View

end GraphViews
