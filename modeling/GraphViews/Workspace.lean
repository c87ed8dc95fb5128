import GraphViews.Workspace.Command
import GraphViews.Workspace.Listing
/-!
# Workspaces

A workspace is a store whose graphs and sets have names. A name can be taken over or dropped; the object
stays in the store, so the views over it go on as before.
-/

namespace GraphViews

/-- A store with names for its graphs and for views over its objects. -/
structure Workspace where
  store : Store (Node Atom) := {}
  graphs : Table String Nat := .empty
  sets : Table String (AnyView (Node Atom)) := .empty

namespace Workspace

/-! ## Names -/

/-- The number of the graph with a name. -/
def graphId (w : Workspace) (name : String) : Except Misuse Nat :=
  match w.graphs.find? name with
  | some id => .ok id
  | none => .error (.unknownGraph name)

/-- The graph with a name. -/
def graph (w : Workspace) (name : String) : Except Misuse (AnyGraph (Node Atom)) := do
  let id ← w.graphId name
  match w.store.graphs[id]? with
  | some g => .ok g
  | none => .error (.unknownGraph name)

/-- The view with a name. -/
def view (w : Workspace) (name : String) : Except Misuse (AnyView (Node Atom)) :=
  match w.sets.find? name with
  | some v => .ok v
  | none => .error (.unknownSet name)

/-- The workspace with a new graph under a name. -/
def nameGraph (w : Workspace) (name : String) (g : AnyGraph (Node Atom)) : Workspace :=
  { w with store := w.store.addGraph g, graphs := w.graphs.put name w.store.graphs.length }

/-- The workspace with a view under a name. -/
def nameView (w : Workspace) (name : String) (v : AnyView (Node Atom)) : Workspace :=
  { w with sets := w.sets.put name v }

/-- The workspace with a new stored set under a name. -/
def nameSet (w : Workspace) (name : String) {kind : ItemKind} (set : ItemSet (kind.Item (Node Atom))) :
    Workspace :=
  { w with
    store := w.store.addSet set
    sets := w.sets.put name ⟨kind, .leaf (.stored kind (w.store.sets kind).length)⟩ }

/-! ## Questions -/

/-- What a set answers, with its items as nodes. -/
def reading (w : Workspace) (name : String) : Except Misuse (Reading (Node Atom)) :=
  w.store.readAny <$> w.view name

/-- The degree of a node, taken by a route. -/
def degreeBy (g : AnyGraph (Node Atom)) (x : Node Atom) : Route → Nat
  | .records => g.graph.degree x
  | .sets => g.survey.degree x

/-- The number of edges into a node, taken by a route. -/
def inDegreeBy (g : AnyGraph (Node Atom)) (x : Node Atom) : Route → Nat
  | .records => g.graph.inDegree x
  | .sets => g.survey.inDegree x

/-- The number of edges out of a node, taken by a route. -/
def outDegreeBy (g : AnyGraph (Node Atom)) (x : Node Atom) : Route → Nat
  | .records => g.graph.outDegree x
  | .sets => g.survey.outDegree x

/-- Whether there is an edge, found by a route. -/
def hasEdgeBy (g : AnyGraph (Node Atom)) (u v : Node Atom) : Route → Bool
  | .records => g.graph.hasEdge u v
  | .sets => g.survey.hasEdge u v

/-- Whether there is an edge that a pair names, found by a route. -/
def hasPairBy (g : AnyGraph (Node Atom)) (p : Ends (Node Atom)) : Route → Bool
  | .records => g.graph.hasPair p
  | .sets => g.survey.hasPair p

/-- Answers a question about one graph. -/
def askGraph (g : AnyGraph (Node Atom)) (route : Route) : GraphQuestion (Node Atom) → Answer
  | .isDirected => .flag g.survey.edgeKind.isDirected
  | .selfLoops => .flag g.survey.selfLoops
  | .degree x => .count (degreeBy g x route)
  | .inDegree x => .count (inDegreeBy g x route)
  | .outDegree x => .count (outDegreeBy g x route)
  | .degrees x => .degrees (degreeBy g x route) (inDegreeBy g x route) (outDegreeBy g x route)
  | .hasEdge u v => .flag (hasEdgeBy g u v route)
  | .hasPair p => .flag (hasPairBy g p route)
  | .admits p => .flag (g.edgeKind.admits p)
  | .validate p =>
    match g.edgeKind.validate p with
    | .ok () => .done
    | .error violation => .refused ⟨.checked, violation⟩
  | .plainText => .text g.survey.listing.plain

/-- The parts of a union of two readings, as they are shown. -/
def showParts (loose : Bool) (a b : Reading (Node Atom)) : UnionParts where
  first := listing loose (a.parts b).1
  rest := listing loose (a.parts b).2

/-- Answers a question about one set. -/
def askSet (w : Workspace) (name : String) (question : SetQuestion (Node Atom)) : Except Misuse Answer := do
  let v ← w.view name
  let r := w.store.readAny v
  let loose := w.store.listsLoosely v
  let listed := listing loose (w.store.collectAny v)
  match question with
  | .size => .ok (.count r.size)
  | .isEmpty => .ok (.flag r.isEmpty)
  | .contains x => .ok (.flag (r.contains x))
  | .items => .ok (.items listed)
  | .plainText => .ok (.text (plainListing listed))
  | .quotedText => .ok (.text (quotedListing listed))
  | .probe xs => .ok (.probed ⟨r.size, r.isEmpty, listed, xs.map r.contains⟩)
  | .parts =>
    match v with
    | ⟨kind, .union a b⟩ =>
      .ok (.parted (showParts loose (w.store.readAny ⟨kind, a⟩) (w.store.readAny ⟨kind, b⟩)))
    | _ => .error (.notAUnion name)

/-- Answers a question. -/
def ask (w : Workspace) : Question → Except Misuse Answer
  | .compareGraphs a b => do
    let a ← w.graph a
    let b ← w.graph b
    .ok (.flag (a.survey.equal b.survey))
  | .graph name route question => do
    let g ← w.graph name
    .ok (askGraph g route question)
  | .graphQuoted name => do
    let g ← w.graph name
    .ok (.text g.survey.listing.quoted)
  | .check name => do
    let g ← w.graph name
    match g.graph.check with
    | .ok () => .ok .done
    | .error fault => .ok (.inconsistent fault)
  | .contents name => do
    let g ← w.graph name
    .ok (.contents g.survey.contents)
  | .byNode name => do
    let g ← w.graph name
    .ok (.byNode g.survey.contents (g.survey.contents.nodes.map g.row))
  | .set name question => w.askSet name question
  | .unionNow a b => do
    let a ← w.reading a
    let b ← w.reading b
    .ok (.united (a.union b).size (a.union b).isEmpty (showParts false a b))
  | .compareSets a b => do
    let a ← w.reading a
    let b ← w.reading b
    .ok (.flag (a.equal b))
  | .comparePresent a b => do
    let a ← a.mapM w.reading
    let b ← b.mapM w.reading
    .ok (.flag (Reading.equal? a b))

/-! ## Actions -/

/-- The leaf for a set of a graph. -/
def leafOf (graph : Nat) : GraphSet (Node Atom) → AnyView (Node Atom)
  | .nodes => ⟨.node, .leaf (.nodes graph)⟩
  | .edges => ⟨.edge, .leaf (.edges graph)⟩
  | .neighbors side x => ⟨.node, .leaf (.neighbors graph side x)⟩
  | .incident x => ⟨.edge, .leaf (.incident graph x)⟩

/-- The set stored at a leaf. -/
def stored? (w : Workspace) : (v : AnyView (Node Atom)) → Option (Nat × ItemSet (v.kind.Item (Node Atom)))
  | ⟨kind, .leaf (.stored _ id)⟩ => ((w.store.sets kind)[id]?).map (id, ·)
  | _ => none

/-- Carries out an action. -/
def act (w : Workspace) : Action → Except Misuse (Workspace × Report)
  | .newGraph name d settings => .ok (w.nameGraph name ⟨d, settings.build⟩, .done, [])
  | .copyGraph name source => do
    let g ← w.graph source
    .ok (w.nameGraph name g, .done, [])
  | .likeGraph name source selfLoops expected => do
    let g ← w.graph source
    let settings := Settings.like g.survey
    let settings := selfLoops.elim settings settings.allowSelfLoops
    let settings := expected.elim settings settings.expectNodes
    let made : AnyGraph (Node Atom) := ⟨_, settings.build⟩
    .ok (w.nameGraph name made,
      .made made.survey.edgeKind.isDirected made.survey.selfLoops made.survey.nodes.size, [])
  | .dropGraph name => .ok ({ w with graphs := w.graphs.erase name }, .flag (w.graphs.contains name), [])
  | .changeGraph name c => do
    let id ← w.graphId name
    let g ← w.graph name
    let effect := g.change c
    .ok ({ w with store := w.store.change (.graph id c) },
      .changed effect.answer effect.state.survey.nodes.size effect.state.survey.edges.size, effect.events)
  | .changeGraphInBulk name cs => do
    let id ← w.graphId name
    let g ← w.graph name
    let (last, effects) := g.graph.run cs
    .ok ({ w with store := w.store.setGraph id ⟨_, last⟩ },
      .changedInBulk (effects.map (·.answer)) last.nodeCount last.edgeCount, effects.flatMap (·.events))
  | .newSet name kind items =>
    match items.mapM kind.ofNode? with
    | none => .error (.wrongKind name)
    | some items =>
      let set := ItemSet.ofList items
      .ok (w.nameSet name set, .count set.size, [])
  | .viewGraph name graph part => do
    let id ← w.graphId graph
    let v := leafOf id part
    .ok (w.nameView name v, .count (w.store.readAny v).size, [])
  | .protect name source => do
    let v ← w.view source
    .ok (w.nameView name ⟨v.kind, .unmodifiable (.held .handle v.view)⟩, .done, [])
  | .unite name a b => do
    let va ← w.view a
    let vb ← w.view b
    if h : vb.kind = va.kind then
      .ok (w.nameView name ⟨va.kind, .union (.held .handle va.view) (.held .handle (h ▸ vb.view))⟩, .done, [])
    else .error (.wrongKind b)
  | .copySet name source => do
    let v ← w.view source
    match w.stored? v with
    | some (_, set) => .ok (w.nameSet name set, .done, [])
    | none => .ok (w.nameView name v, .done, [])
  | .dropSet name => .ok ({ w with sets := w.sets.erase name }, .flag (w.sets.contains name), [])
  | .changeSet name c => do
    let v ← w.view name
    match w.stored? v, c.mapM? v.kind.ofNode? with
    | none, _ => .error (.notStored name)
    | _, none => .error (.wrongKind name)
    | some (id, set), some c =>
      let (changed, set) := set.change c
      .ok ({ w with store := w.store.setSet id set }, .resized changed set.size, [])

/-! ## Commands -/

mutual

/-- Carries out a command. A command that makes no sense changes nothing. -/
def exec (w : Workspace) : Command → Workspace × Report
  | .ask question =>
    match w.ask question with
    | .ok answer => (w, answer, [])
    | .error misuse => (w, .misused misuse, [])
  | .act action =>
    match w.act action with
    | .ok r => r
    | .error misuse => (w, .misused misuse, [])
  | .hold name draws body =>
    match w.view name with
    | .error misuse => (w, .misused misuse, [])
    | .ok v =>
      let loose := w.store.listsLoosely v
      let (drawn, cursor) := (Cursor.start w.store.look v.view).take w.store.look draws
      let (w, inner) := execAll w body
      let rest := cursor.drain w.store.look
      let list (xs : List (v.kind.Item (Node Atom))) := listing loose (xs.map v.kind.toNode)
      (w, .held (list drawn) inner (list rest), [])

/-- Carries out commands one after another. -/
def execAll (w : Workspace) : List Command → Workspace × List Report
  | [] => (w, [])
  | c :: cs =>
    let (w, report) := exec w c
    let (w, reports) := execAll w cs
    (w, report :: reports)

end

/-- The reports of commands carried out from an empty workspace. -/
def run (cs : List Command) : List Report := (execAll {} cs).2

end Workspace

end GraphViews
