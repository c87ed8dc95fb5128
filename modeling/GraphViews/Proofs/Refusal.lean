import GraphViews.Proofs.Alike
/-!
# Refused changes

A change is refused for two reasons: a pair is of the kind that names no edge of the graph, or an edge would be a
self-loop against the policy. The first is checked before the pair is taken apart, the second before a record is
touched, so a refused change leaves nothing behind (`state_of_error`). Nothing that comes later can therefore tell
whether it was tried: `run_accepted` takes all refused changes out of a run at once.
-/

namespace GraphViews

/-- The same change, reported in the given way if it is refused. -/
def Change.reportedAs {ν : Type} (s : Strictness) : Change ν → Change ν
  | insertEdge _ u v => insertEdge s u v
  | insertPair _ p => insertPair s p
  | erasePair _ p => erasePair s p
  | insertNode x => insertNode x
  | eraseNode x => eraseNode x
  | eraseEdge u v => eraseEdge u v

/-- Whether the change was refused. -/
def Effect.isRefusal {ν γ : Type} (e : Effect ν γ) : Bool :=
  match e.answer with
  | .ok _ => false
  | .error _ => true

/-- The caller is told the same violation, handed back in one case and thrown at it in the other. -/
structure Failure.Counterpart {ν : Type} (f f' : Failure ν) : Prop where
  checked : f.strictness = .checked
  asserted : f'.strictness = .asserted
  violation : f'.violation = f.violation

theorem EdgeKind.admits_iff {ν : Type} (d : EdgeKind) (p : Ends ν) : d.admits p ↔ p.isOrdered = d.isDirected :=
  beq_iff_eq

variable {ν : Type} [BEq ν] {d : EdgeKind}

namespace Graph

/-! ## One change -/

/-- Exactly the self-loops against the policy are refused. -/
theorem insertEdge_eq_error_iff (g : Graph ν d) (s : Strictness) (u v : ν) (f : Failure ν) :
    (g.insertEdge s u v).answer = .error f ↔ (g.selfLoops = false ∧ u == v) ∧ f = ⟨s, .selfLoop u⟩ := by
  rw [insertEdge_eq]
  by_cases h : (!g.selfLoops && u == v) = true
  · rw [if_pos h]
    have hloop : g.selfLoops = false ∧ u == v := by simpa using h
    constructor
    · rintro ⟨⟩
      exact ⟨hloop, rfl⟩
    · rintro ⟨-, rfl⟩
      rfl
  · rw [if_neg h]
    constructor
    · rintro ⟨⟩
    · rintro ⟨⟨hp, huv⟩, -⟩
      exact absurd (by rw [hp, huv]; rfl) h

/-- Of the pairs to be erased, exactly those of the wrong kind are refused. -/
theorem erasePair_eq_error_iff (g : Graph ν d) (s : Strictness) (p : Ends ν) (f : Failure ν) :
    (g.change (.erasePair s p)).answer = .error f ↔ p.isOrdered ≠ d.isDirected ∧ f = ⟨s, .wrongKind p⟩ := by
  rw [change_erasePair, Ne, ← EdgeKind.admits_iff]
  by_cases h : d.admits p
  · rw [if_pos h]
    constructor
    · rintro ⟨⟩
    · rintro ⟨hn, -⟩
      exact absurd h hn
  · rw [if_neg h]
    constructor
    · rintro ⟨⟩
      exact ⟨h, rfl⟩
    · rintro ⟨-, rfl⟩
      rfl

/-- A refused change leaves the graph as it is. -/
theorem state_of_error (g : Graph ν d) (c : Change ν) {f : Failure ν} (h : (g.change c).answer = .error f) :
    (g.change c).state = g := by
  revert h
  apply change_of (P := fun e => e.answer = .error f → e.state = g)
  · exact fun _ _ _ => rfl
  · rintro x ⟨⟩
  · rintro x ⟨⟩
  · rintro u v - ⟨⟩
  · rintro u v ⟨⟩

/-- The two forms of a change do the same, and tell the same. -/
theorem forms_agree (g : Graph ν d) (c : Change ν) :
    SameAnswer Failure.Counterpart (g.change (c.reportedAs .checked)).answer
        (g.change (c.reportedAs .asserted)).answer ∧
      (g.change (c.reportedAs .checked)).state = (g.change (c.reportedAs .asserted)).state := by
  have hedge : ∀ u v, SameAnswer Failure.Counterpart (g.insertEdge .checked u v).answer
      (g.insertEdge .asserted u v).answer ∧ (g.insertEdge .checked u v).state = (g.insertEdge .asserted u v).state := by
    intro u v
    rw [insertEdge_eq, insertEdge_eq]
    split
    · exact ⟨.error ⟨rfl, rfl, rfl⟩, rfl⟩
    · exact ⟨.ok _, rfl⟩
  cases c with
  | insertNode x | eraseNode x => exact ⟨.ok _, rfl⟩
  | insertEdge s u v => exact hedge u v
  | eraseEdge u v => exact ⟨.ok _, rfl⟩
  | insertPair s p =>
    rw [Change.reportedAs, Change.reportedAs, change_insertPair, change_insertPair]
    split
    · exact hedge p.fst p.snd
    · exact ⟨.error ⟨rfl, rfl, rfl⟩, rfl⟩
  | erasePair s p =>
    rw [Change.reportedAs, Change.reportedAs, change_erasePair, change_erasePair]
    split
    · exact ⟨.ok _, rfl⟩
    · exact ⟨.error ⟨rfl, rfl, rfl⟩, rfl⟩

/-! ## Runs -/

/-- The changes of a run that are not refused. -/
def accepted (g : Graph ν d) : List (Change ν) → List (Change ν)
  | [] => []
  | c :: cs =>
    if (g.change c).isRefusal then (g.change c).state.accepted cs else c :: (g.change c).state.accepted cs

/-- Without the changes that it refuses, a run comes to the same graph, and every other change has the same effect. -/
theorem run_accepted (g : Graph ν d) (cs : List (Change ν)) :
    g.run (g.accepted cs) = ((g.run cs).1, (g.run cs).2.filter fun e => !e.isRefusal) := by
  induction cs generalizing g with
  | nil => rfl
  | cons c cs ih =>
    have hrun : g.run (c :: cs) =
      (((g.change c).state.run cs).1, g.change c :: ((g.change c).state.run cs).2) := rfl
    rw [hrun, accepted]
    by_cases h : (g.change c).isRefusal
    · -- The run goes on from `g` itself.
      have hstate : (g.change c).state = g := by
        unfold Effect.isRefusal at h
        split at h
        · cases h
        · exact g.state_of_error c ‹_›
      rw [if_pos h, hstate, ih, List.filter_cons_of_neg (by simpa using h)]
    · have hrest := ih (g.change c).state
      rw [if_neg h, run, hrest, List.filter_cons_of_pos (by simpa using h)]

/-! ## Exactness -/

/-- Which changes a graph refuses, for which reason, and what comes of them. -/
structure RefusesExactly (g : Graph ν d) : Prop where
  insertEdge : ∀ s u v f, (g.change (.insertEdge s u v)).answer = .error f ↔
    (g.selfLoops = false ∧ u == v) ∧ f = ⟨s, .selfLoop u⟩
  /-- The kind of a pair is checked first, so it also decides about self-loops. -/
  wrongKind : ∀ s p, p.isOrdered ≠ d.isDirected → (g.change (.insertPair s p)).answer = .error ⟨s, .wrongKind p⟩
  /-- Any other pair stands for its two ends. -/
  rightKind : ∀ s p, p.isOrdered = d.isDirected →
    g.change (.insertPair s p) = g.change (.insertEdge s p.fst p.snd)
  erasePair : ∀ s p f, (g.change (.erasePair s p)).answer = .error f ↔
    p.isOrdered ≠ d.isDirected ∧ f = ⟨s, .wrongKind p⟩
  /-- No other change is refused. -/
  others : (∀ x, ∃ b, (g.change (.insertNode x)).answer = .ok b) ∧ (∀ x, ∃ b, (g.change (.eraseNode x)).answer = .ok b) ∧
    ∀ u v, ∃ b, (g.change (.eraseEdge u v)).answer = .ok b
  /-- A refused change leaves everything as it is: records and the forms in them, and the count. -/
  atomic : ∀ c f, (g.change c).answer = .error f → (g.change c).state = g
  forms : ∀ c : Change ν, SameAnswer Failure.Counterpart (g.change (c.reportedAs .checked)).answer
      (g.change (c.reportedAs .asserted)).answer ∧
    (g.change (c.reportedAs .checked)).state = (g.change (c.reportedAs .asserted)).state

theorem refusesExactly (g : Graph ν d) : g.RefusesExactly where
  insertEdge := g.insertEdge_eq_error_iff
  wrongKind s p h := by
    rw [change_insertPair, if_neg (by rwa [EdgeKind.admits_iff])]
    rfl
  rightKind s p h := by
    rw [change_insertPair, if_pos (by rwa [EdgeKind.admits_iff])]
    rfl
  erasePair := g.erasePair_eq_error_iff
  others := ⟨fun _ => ⟨_, rfl⟩, fun _ => ⟨_, rfl⟩, fun _ _ => ⟨_, rfl⟩⟩
  atomic c _ := g.state_of_error c
  forms := g.forms_agree

/-- Every graph refuses exactly the self-loops against its policy and the pairs of the wrong kind, and a refused
change leaves no trace. So taking the refused changes out of a run takes out their answers and nothing else. -/
theorem refusals_leave_no_trace (g : Graph ν d) :
    g.RefusesExactly ∧ ∀ cs, (g.run (g.accepted cs)).1 = (g.run cs).1 ∧
      (g.run (g.accepted cs)).2 = (g.run cs).2.filter fun e => !e.isRefusal := by
  refine ⟨g.refusesExactly, fun cs => ?_⟩
  rw [run_accepted]
  exact ⟨rfl, rfl⟩

/-- Whether an edge is a self-loop does not depend on how its ends are written, however deep the difference is. -/
example :
    let y : Node Atom := .pair (.unordered (.atom (.integer 1)) (.atom (.integer 2)))
    let y' : Node Atom := .pair (.unordered (.atom (.integer 2)) (.atom (.integer 1)))
    let x : Node Atom := .pair (.ordered y (.atom (.string "1")))
    let x' : Node Atom := .pair (.ordered y' (.atom (.string "1")))
    let cs := [.insertEdge .asserted x x', .insertNode x, .insertPair .checked (.ordered x' x)]
    ((empty .directed false).run cs).2.map (·.isRefusal) = [true, false, true] := by
  decide +kernel

end Graph

end GraphViews
