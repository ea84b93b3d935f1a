/-
GraphFold.Scene — descriptions of values, and the scenes they are read in.

A description may refer to objects of a scene by id, to things made earlier by
name, to syntax nodes of modules. It becomes a value when it is READ, and that
may fail: the objects of a scene keep their children and keys as descriptions,
which are read each time they are asked for.

  §1 Descriptions — `Description`, described objects and syntax nodes.
  §2 Scenes       — what descriptions refer to.
  §3 Reading      — `Scene.read`.
-/
import GraphFold.Fault
import GraphFold.State
import GraphFold.Value.Key
import Std.Data.HashMap.Basic

namespace GraphFold

open Index (Numeral GivenNumeral)

/-! ## §1 Descriptions -/

/-- A value to be read in a scene. -/
inductive Description where
  /-- A value that refers to nothing. -/
  | value (v : Value)
  | tuple (items : List Description)
  | list (items : List Description)
  /-- The object or syntax node of this id. -/
  | ref (id : String)
  /-- The node of a named tree or graph at an index that exists. -/
  | node (owner : String) (index : GivenNumeral)
  /-- The same without a check of the index, and of whatever goes by the name. -/
  | unchecked (owner : String) (index : Value)
  /-- The root of a named tree. -/
  | rootOf (tree : String)
  /-- A type of a named schema. Its name may be any value. -/
  | typeOf (schema : String) (name : Value)
  /-- The syntax node at a position of a module; position 0 is its root. -/
  | entry (module : String) (index : Nat)
  /-- Something that cannot be read. -/
  | raises (fault : Fault)

instance : Inhabited Description := ⟨.value .none⟩

/-- A description as it is written, before it is read: a text, or the class of something else. Only
plain values are written as such; whatever refers to something is written as a mapping. -/
def Description.written : Description → Except String String
  | value (.text s) => .ok s
  | value .none => .error (Value.className .none)
  | value v => .error (if v.numeral?.isSome then v.className else (Value.mapping []).className)
  | tuple _ => .error (Value.list []).className
  | _ => .error (Value.mapping []).className

/-- In what the children of a node are returned. -/
inductive Container where
  | tuple
  | list
  /-- No value at all. -/
  | nothing
  /-- The number 7. -/
  | number
  /-- One text, joined from the items as they are written; its characters are the children. -/
  | joined
  /-- The lookup itself raises. -/
  | raises (fault : Fault)
  /-- The items are read as they are asked for; the one at position `stop` raises instead, if
  there is such a position. -/
  | lazy (stop : Option Nat)

/-- An object as a scene describes it. -/
structure Described where
  cls : ObjectClass
  kids : List Description
  container : Container
  key? : Option Description
  name : String

/-- A syntax node as a scene describes it: its class and its attributes. -/
structure SyntaxEntry where
  cls : String
  attributes : List (String × Description)

/-! ## §2 Scenes -/

/-- A state of a walk over values. -/
abbrev ValueState : Type := State Value Key Context

/-- What a name may stand for. -/
inductive Artefact where
  | tree (t : Owner ArrayTree)
  | graph (g : Owner CompressedGraph)
  | schema (s : Owner Schema)
  | state (s : Owner ValueState)

namespace Artefact

/-- The name of the class of a named thing. -/
def className : Artefact → String
  | tree _ => "ArrayTopology"
  | graph _ => "AdjacencyGraph"
  | schema s => (Context.schema s.name s.content).className
  | state _ => "TraversalState"

/-- A named thing as the owner of places in a graph, which only a graph is. -/
def graphOwner : Artefact → Owner (Option CompressedGraph)
  | graph g => g.holding (some g.content)
  | tree t => t.holding none
  | schema s => s.holding none
  | state s => s.holding none

/-- Whether two named things are equal: states and schemas by content, trees and graphs only each
to itself. -/
def same : Artefact → Artefact → Bool
  | tree a, tree b => a.serial == b.serial
  | graph a, graph b => a.serial == b.serial
  | schema a, schema b => a.content.same b.content
  | state a, state b => State.same Context.same Value.same a.content b.content
  | _, _ => false

end Artefact

/-- What descriptions refer to. -/
structure Scene where
  /-- The classes of described objects that go by their tags. -/
  classes : List ObjectClass
  /-- The greatest length of a sequence that fits the memory. -/
  longest : Nat
  objects : Std.HashMap String Described
  listed : Std.HashMap String SyntaxEntry
  modules : Std.HashMap String (Array SyntaxEntry)
  vertexGraphs : OrderedMap String VertexGraph
  /-- The latest thing made under each name. -/
  artefacts : Std.HashMap String Artefact
  /-- The number of owners made so far: the serial number of the next. -/
  owners : Nat

namespace Scene

/-- The scene without anything in it, whose memory fits the empty sequence only. -/
def empty : Scene := ⟨[], 0, ∅, ∅, ∅, .empty, ∅, 0⟩

/-- Adds an object; an earlier entry of its id is out of reach from then on. -/
def addObject (scene : Scene) (id : String) (d : Described) : Scene :=
  { scene with objects := scene.objects.insert id d, listed := scene.listed.erase id }

/-- Adds a syntax node in the same way. -/
def addSyntax (scene : Scene) (id : String) (e : SyntaxEntry) : Scene :=
  { scene with objects := scene.objects.erase id, listed := scene.listed.insert id e }

/-- Gives a thing a name; an earlier one of this name is out of reach from then on. -/
def bind (scene : Scene) (name : String) (a : Artefact) : Scene :=
  { scene with artefacts := scene.artefacts.insert name a }

/-- Names a new thing of some kind, and gives it a serial number. Numbers are given out once only,
whereas the identity of an owner that is no longer alive may be that of a later one; no place of the
earlier owner is left then. -/
def add {α : Type} (scene : Scene) (kind : Owner α → Artefact) (name : String) (content : α) :
    Scene :=
  { scene.bind name (kind ⟨scene.owners, name, content⟩) with owners := scene.owners + 1 }

/-- The thing of this name. -/
def artefact (scene : Scene) (name : String) : Except Fault Artefact :=
  match scene.artefacts[name]? with
  | some a => .ok a
  | none => .error (.unknownName name)

/-- The tree of this name. -/
def tree (scene : Scene) (name : String) : Except Fault (Owner ArrayTree) := do
  match ← scene.artefact name with
  | .tree t => return t
  | _ => throw .lacking

/-- The graph of this name. -/
def graph (scene : Scene) (name : String) : Except Fault (Owner CompressedGraph) := do
  match ← scene.artefact name with
  | .graph g => return g
  | _ => throw .lacking

/-- The schema of this name, in which types can be looked up. -/
def schema (scene : Scene) (name : String) : Except Fault Schema := do
  match ← scene.artefact name with
  | .schema s => return s.content
  | other => throw (.notSubscriptable other.className)

/-- The state of this name. -/
def state (scene : Scene) (name : String) : Except Fault (Owner ValueState) := do
  match ← scene.artefact name with
  | .state s => return s
  | _ => throw .lacking

/-- The vertex graph of this name. -/
def vertexGraph (scene : Scene) (name : String) : Except Fault VertexGraph :=
  match scene.vertexGraphs.find? name with
  | some g => .ok g
  | none => .error (.unknownName name)

end Scene

/-! ## §3 Reading -/

/-- The attributes that label a syntax node, the first that holds a text. -/
def labelAttributes : List String := ["name", "id", "arg", "attr"]

namespace SyntaxEntry

/-- The attribute that holds a key of a syntax node's own. -/
def keyAttribute : String := "traversal_key"

/-- The attribute that holds the names of fields of a syntax node's own. -/
def fieldsAttribute : String := "_fields"

/-- The attribute that stands for a lookup of children, and never is one. -/
def childrenAttribute : String := "children"

/-- A node that is made under a class, with these attributes. -/
def make (cls : String) (attributes : List (String × Description)) : SyntaxEntry :=
  ⟨SyntaxTree.classMade cls, attributes⟩

/-- The listed node of an id that is made under a class, with these attributes. A node that is made
under the class of rows of slices has attributes before any are set: no items, and a context of its
own. -/
def makeListed (id cls : String) (attributes : List (String × Description)) : SyntaxEntry :=
  if cls = SyntaxTree.sliceRowClass then
    let context := Value.syntaxNode ⟨.within id, SyntaxTree.loadClass, none⟩
    make cls ([("elts", .list []), ("ctx", .value context)] ++ attributes)
  else
    make cls attributes

/-- The attribute of this name, which may be an older one; the latest setting counts. -/
def attribute? (e : SyntaxEntry) (name : String) : Option Description :=
  let kept := SyntaxTree.attributeMeant e.cls
  (e.attributes.reverse.find? fun entry => kept entry.1 == kept name).map (·.2)

/-- The text a syntax node is labelled with. -/
def text? (e : SyntaxEntry) : Option String :=
  labelAttributes.findSome? fun name =>
    match e.attribute? name with
    | some (.value (.text s)) => some s
    | _ => none

/-- The syntax node an entry stands for at a place. -/
def toRef (e : SyntaxEntry) (place : SyntaxPlace) : SyntaxRef := ⟨place, e.cls, e.text?⟩

end SyntaxEntry

/-- The reference to a described object. Only objects of classes that go by names keep a name. -/
def Described.toRef (d : Described) (id : String) : ObjectRef :=
  ⟨id, d.cls, if d.cls.goesByName then d.name else ""⟩

/-- The position of a node, if it is one of `size` nodes. An index with a fraction has to lie in
the range itself, and is truncated then. -/
def nodePosition? (size : Nat) (index : Numeral) : Except Fault Numeral :=
  if 0 ≤ index.floor ∧ index.floor < size then
    .ok (.int index.toInt)
  else
    .error (.nodeRange index size)

/-- A position that is found is one of the positions, as an integer. -/
theorem exists_of_nodePosition? {size : Nat} {index k : Numeral}
    (h : nodePosition? size index = .ok k) : ∃ i : Nat, i < size ∧ k = .int i := by
  unfold nodePosition? at h
  split at h
  · rename_i hrange
    have hfloor := Numeral.toInt_eq_floor hrange.1
    cases h
    refine ⟨index.floor.toNat, by omega, ?_⟩
    rw [hfloor, Int.toNat_of_nonneg hrange.1]
  · cases h

/-- The node at an index of a tree, if the index exists. -/
def Owner.treeNode? (t : Owner ArrayTree) (index : Numeral) : Except Fault Value :=
  (nodePosition? t.content.size index).map fun k => .treeNode t (.ofNumeral k)

/-- The node at an index of a graph, if the index exists. -/
def Owner.graphNode? (g : Owner CompressedGraph) (index : Numeral) : Except Fault Value :=
  (nodePosition? g.content.size index).map fun k =>
    .graphNode (g.holding (some g.content)) (.ofNumeral k)

/-- The first node of a tree without a parent. -/
def Owner.rootNode? (t : Owner ArrayTree) : Except Fault Value :=
  match t.content.root? with
  | some index => .ok (.treeNode t (.int index))
  | none => .error .noRoot

/-- The type that a context has under a name, which may be any value. Only texts are names of
types. -/
def Context.typeNamed (c : Context) (name : Value) : Except Fault Value :=
  let asked : Except Fault Value := (c.resolveType name.plain).mapError .schema
  match c, name with
  | _, .text _ => asked
  | .schema _ _, name =>
    match name.unhashablePart? with
    | some cls => .error (.unhashableKey cls)
    | none => .error (.schema (.unknownType name.plain))
  | _, _ => asked

namespace Scene

/-- The entry of a syntax node. Shared nodes, and such as are made together with others, have none,
and no attributes either. -/
def syntaxEntry? (scene : Scene) (node : SyntaxRef) : Option SyntaxEntry :=
  match node.place with
  | .listed id => scene.listed[id]?
  | .within _ => none
  | .entry module index => scene.modules[module]?.bind (·[index]?)
  | .shared _ => none

/-- The object or syntax node of an id. -/
def lookup (scene : Scene) (id : String) : Except Fault Value :=
  match scene.objects[id]?, scene.listed[id]? with
  | some d, _ => .ok (.object (d.toRef id))
  | none, some e => .ok (.syntaxNode (e.toRef (.listed id)))
  | none, none => .error (.unknownName id)

/-- The syntax node at a position of a module. -/
def moduleNode (scene : Scene) (module : String) (index : Nat) : Except Fault Value :=
  match scene.modules[module]?.bind (·[index]?) with
  | some e =>
    let place := if SyntaxTree.isShared e.cls then .shared e.cls else .entry module index
    .ok (.syntaxNode (e.toRef place))
  | none => .error (.unknownName module)

/-- The node of a named tree or graph at an index that exists. The index is compared with zero
first, and has to be a number. -/
def nodeAt (scene : Scene) (owner : String) (index : GivenNumeral) : Except Fault Value := do
  match ← scene.artefact owner, index with
  | .tree t, .ok index => t.treeNode? index
  | .graph g, .ok index => g.graphNode? index
  | .tree _, .error cls | .graph _, .error cls => throw (.unordered "<=" "int" cls)
  | _, _ => throw .lacking

/-- The same without a check of the index, which is kept as it is given. Whatever is no tree is taken
for a graph. -/
def nodeUnchecked (scene : Scene) (owner : String) (index : Value) : Except Fault Value := do
  match ← scene.artefact owner with
  | .tree t => return .treeNode t index
  | other => return .graphNode other.graphOwner index

/-- The type of this name in a named schema. -/
def typeOf (scene : Scene) (schema : String) (name : Value) : Except Fault Value := do
  (Context.schema schema (← scene.schema schema)).typeNamed name

/-- The value a description stands for. -/
def read (scene : Scene) : Description → Except Fault Value
  | .value v => .ok v
  | .tuple items => return .tuple (← readAll items)
  | .list items => return .list (← readAll items)
  | .ref id => scene.lookup id
  | .node owner index => scene.nodeAt owner index
  | .unchecked owner index => scene.nodeUnchecked owner index
  | .rootOf tree => do (← scene.tree tree).rootNode?
  | .typeOf schema name => scene.typeOf schema name
  | .entry module index => scene.moduleNode module index
  | .raises fault => .error fault
where
  /-- The values of descriptions, read in order. -/
  readAll : List Description → Except Fault (List Value)
    | [] => .ok []
    | item :: later => do
      let v ← scene.read item
      return v :: (← readAll later)

/-- The attribute of this name of a value. Only syntax nodes are given attributes. -/
def attributeOf (scene : Scene) (v : Value) (name : String) : Except Fault Value :=
  match v with
  | .syntaxNode n =>
    match (scene.syntaxEntry? n).bind (·.attribute? name) with
    | some description => scene.read description
    | none => .error .lacking
  | _ => .error .lacking

end Scene

end GraphFold
