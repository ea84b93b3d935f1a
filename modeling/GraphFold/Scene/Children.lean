/-
GraphFold.Scene.Children — the children of values.

An adapter registered for the class of a node, or for the nearest class above
it, comes first; else the node lists its children itself, if it can; else the
lookup fails.

  §1 Listings — children in a container, at once or one by one.
  §2 Own      — what nodes list themselves.
  §3 Adapters — what may be registered for a class.
  §4 Lookup   — `Scene.children`, `Scene.isTraversable`.
-/
import GraphFold.Registry
import GraphFold.Scene.Trace
import GraphFold.Walk

namespace GraphFold

open Index (GivenIndex)

/-- The children of a value. -/
abbrev ValueListing : Type := Listing Memory Fault Value

/-! ## §1 Listings -/

/-- Children that are there already. -/
def ValueListing.ofValues (vs : List Value) : ValueListing := .ok (.ofNodes vs)

/-- The items of a value that has items: of a tuple or list, the characters of a text, or the names of
a mapping. -/
def Value.items : Value → ValueListing
  | .tuple items => .ofValues items
  | .list items => .ofValues items
  | .text s => .ofValues (s.toList.map fun c => .text (String.singleton c))
  | .mapping entries => .ofValues (entries.map fun entry => .text entry.1)
  | v => .error (.notIterable v.operandName)

/-- Joins texts, as they are written; anything else stops it. -/
def joinTexts : Nat → List Description → Except Fault String
  | _, [] => .ok ""
  | index, item :: later => do
    match item.written with
    | .ok s => return s ++ (← joinTexts (index + 1) later)
    | .error cls => throw (.notText index cls)

namespace Scene

/-- Pulls that read descriptions one by one, from position `index` on. -/
def lazyPulls (scene : Scene) (stop : Option Nat) :
    Nat → List Description → List (Pull Memory Fault Value)
  | _, [] => []
  | index, kid :: later =>
    if stop = some index then
      [throw .stopped]
    else
      (do record fun _ => pure (.yielded index)
          Action.ofExcept (scene.read kid)) :: lazyPulls scene stop (index + 1) later

/-- Puts children into a container. -/
def contain (scene : Scene) (kids : List Description) :
    Container → SceneAction ValueListing
  | .raises fault => throw fault
  | .lazy stop => return .ok ⟨scene.lazyPulls stop 0 kids, pure ()⟩
  | .nothing => return Value.items .none
  | .number => return Value.items (.int 7)
  | .tuple | .list => return .ofValues (← Action.ofExcept (read.readAll scene kids))
  | .joined => return Value.items (.text (← Action.ofExcept (joinTexts 0 kids)))

end Scene

/-! ## §2 Own -/

/-- The children at whatever is given for an index of a tree. It is compared with the internal nodes
first, and has to be a number. -/
def ArrayTree.childrenAt (t : ArrayTree) : GivenIndex → Except Fault (List Int)
  | .number index => (t.childIndices index).mapError .pick
  | given => .error (.unordered ">=" given.className "int")

/-- The successors at whatever is given for an index of a graph. -/
def CompressedGraph.successorsAt (g : CompressedGraph) : GivenIndex → Except Fault (List Int)
  | .number index => (g.successors index).mapError .pick
  | .list items => .error (.pick (g.offsets.listError items))
  | .stray cls => .error (.pick (.ofClass cls))

namespace Scene

/-- The names of the fields of a syntax node: those it holds in an attribute of its own, if it
has one, else those its class declares. -/
def fieldNames (scene : Scene) (entry : SyntaxEntry) : Except Fault (List String) :=
  match entry.attribute? SyntaxEntry.fieldsAttribute with
  | none => .ok (SyntaxTree.declaredFields entry.cls)
  | some description => do
    match ← scene.read description with
    | .tuple names | .list names => names.mapM name
    | .text s => return s.toList.map String.singleton
    | v => throw (.notIterable v.operandName)
where
  /-- The name of one field. -/
  name : Value → Except Fault String
    | .text s => .ok s
    | v => .error (.attributeName v.operandName)

/-- The children of a syntax node: for each of its fields, in order, the node the attribute
holds, or the nodes among the items of the list it holds. -/
def syntaxChildren (scene : Scene) (node : SyntaxRef) : Except Fault (List Value) := do
  match scene.syntaxEntry? node with
  | none => return []
  | some entry =>
    let fields := (← scene.fieldNames entry).filterMap entry.attribute?
    let values ← read.readAll scene fields
    return values.flatMap nodesIn
where
  /-- The syntax nodes an attribute holds. -/
  nodesIn : Value → List Value
    | .list items => items.filter isNode
    | v => [v].filter isNode
  /-- Whether a value is a syntax node. -/
  isNode : Value → Bool
    | .syntaxNode _ => true
    | _ => false

/-- Leaves a trace entry that says whether a node was seen and under which path. -/
def recordVisit (scene : Scene) (node : Value) (s : ValueState)
    (entry : String → Bool → List String → TraceEntry) : SceneAction Unit :=
  record fun _ => do
    let seen ← Action.ofExcept (scene.isSeen s node)
    return entry node.label seen (pathLabels s)

/-- The children a node lists itself: what it holds in its attribute for children is called with the
state. -/
def ownChildren (scene : Scene) (node : Value) (s : ValueState) : SceneAction ValueListing :=
  match node with
  | .object o =>
    match o.cls.children with
    | .method => do
      scene.recordVisit node s .children
      match scene.objects[o.id]? with
      | some d => scene.contain d.kids d.container
      | none => throw (.unknownName o.id)
    | .number i => throw (.notCallable (Value.int i).operandName)
    | .nothing => throw (.notCallable Value.none.operandName)
    | .absent => throw .lacking
  | .vertex name => do
    scene.recordVisit node s .children
    return .ofValues ((s.context.neighbours name).map .vertex)
  | .treeNode t index => do
    let children ← Action.ofExcept (t.content.childrenAt index.givenIndex)
    return .ofValues (children.map fun child => .treeNode t (.int child))
  | .graphNode g index => do
    match g.content with
    | some graph =>
      let targets ← Action.ofExcept (graph.successorsAt index.givenIndex)
      return .ofValues (targets.map fun target => .graphNode g (.int target))
    | none => throw .lacking
  | .scalarType _ => return .ofValues []
  | .objectType t => return .ofValues (t.fields.map .field)
  | .field f => do
    match s.context.resolveType f.typeName with
    | .ok type => return .ofValues [type]
    | .error e => throw (.schema e)
  | .syntaxNode n => do
    let held ← Action.ofExcept (scene.attributeOf (.syntaxNode n) SyntaxEntry.childrenAttribute)
    throw (.notCallable held.operandName)
  | _ => throw .lacking

end Scene

/-! ## §3 Adapters -/

/-- Where a scripted adapter takes the children from. -/
inductive AdapterSource where
  /-- These, whatever the node. -/
  | fixed (items : List Description)
  /-- The neighbours of the vertex named by the node's label. -/
  | neighbours
  /-- The items of the node, which is returned itself. -/
  | items
  /-- The children by which the node is described. -/
  | kids

/-- What may be registered for a class. -/
inductive Adapter where
  /-- Lists the children of syntax nodes. -/
  | syntaxTree
  /-- A scripted adapter, known by a name. -/
  | scripted (name : Value) (source : AdapterSource) (container : Container)

/-- The registered classes of values. -/
abbrev ValueRegistry : Type := Registry NodeClass Adapter

/-- The class of all syntax nodes. -/
def syntaxRoot : NodeClass := .grammar SyntaxTree.rootClass

/-- The registry in which only syntax nodes have an adapter. -/
def ValueRegistry.standard : ValueRegistry := .singleton syntaxRoot (some .syntaxTree)

namespace Scene

/-- The children an adapter lists. -/
def adapt (scene : Scene) (node : Value) (s : ValueState) :
    Adapter → SceneAction ValueListing
  | .syntaxTree =>
    match node with
    | .syntaxNode n => return .ofValues (← Action.ofExcept (scene.syntaxChildren n))
    | _ => throw .lacking
  | .scripted name source container => do
    scene.recordVisit node s (.adapter name)
    match source with
    | .fixed items => scene.contain items container
    | .neighbours => return .ofValues ((s.context.neighbours node.label).map .vertex)
    | .items => return node.items
    | .kids =>
      match node with
      | .object o =>
        match scene.objects[o.id]? with
        | some d => scene.contain d.kids container
        | none => throw (.unknownName o.id)
      | _ => throw .lacking

/-! ## §4 Lookup -/

/-- The children of a node under a state. -/
def children (scene : Scene) (registry : ValueRegistry) (node : Value) (s : ValueState) :
    SceneAction ValueListing :=
  match registry.resolve node.nodeClass.order with
  | some adapter => scene.adapt node s adapter
  | none =>
    if node.childrenAttribute.isHeld && node.childrenAttribute.isCallable then
      scene.ownChildren node s
    else
      throw (.incapable node.className)

/-- A node for which no adapter is found is asked itself, if it has a function for its children. -/
theorem children_eq_own {registry : ValueRegistry} (scene : Scene) (node : Value) (s : ValueState)
    (hresolve : registry.resolve node.nodeClass.order = none)
    (hmethod : node.childrenAttribute = .method) :
    scene.children registry node s = scene.ownChildren node s := by
  rw [children, hresolve, hmethod]
  rfl

/-- Whether the lookup of the children of a node asks the state for its context. -/
def readsContext (registry : ValueRegistry) (node : Value) : Bool :=
  match registry.resolve node.nodeClass.order, node with
  | some (.scripted _ .neighbours _), _ | none, .vertex _ | none, .field _ => true
  | _, _ => false

/-- Whether the children of a node can be looked up at all. -/
def isTraversable (registry : ValueRegistry) (node : Value) : Bool :=
  if (registry.resolve node.nodeClass.order).isSome then
    true
  else
    node.childrenAttribute.isHeld && node.childrenAttribute.isCallable

end Scene

end GraphFold
