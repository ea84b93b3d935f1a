/-
GraphFold.Value — the values that nodes, keys and constants are made of.

Plain data, vertices known by name, places in trees and graphs, type
definitions, syntax nodes, and objects described in a scene. Two values are
the SAME when a seen set may take one for the other: data by content, with
truth values counting as 0 and 1, and numbers compared as numbers; type definitions by all their parts;
vertices and named objects by name; places by owner and index, where only the
number counts and not the way it was given; everything else by what it is.
Undefined floating point bits, which are not the same as themselves, are no
values.

  §1 Parts    — owners, type definitions, objects, syntax nodes.
  §2 Values   — `Value`, its class, whether it is hashable, and what it counts as.
  §3 Sameness — `Value.same`.
-/
import GraphFold.ArrayTree
import GraphFold.CompressedGraph
import GraphFold.NodeClass

namespace GraphFold

open Index (Binary Numeral GivenNumeral GivenIndex Nested Scalar)

/-! ## §1 Parts -/

/-- Something that owns places. The serial number stands for the identity of an owner that is alive:
two owners are one exactly when their serial numbers are equal. Names may repeat. A place keeps its
owner alive, so the owners of two given places both are. -/
structure Owner (α : Type) where
  serial : Nat
  name : String
  content : α

/-- The same owner with another content. -/
def Owner.holding {α β : Type} (o : Owner α) (content : β) : Owner β := ⟨o.serial, o.name, content⟩

/-- A field of an object type; its type is given by name. -/
structure FieldDefinition where
  owner : String
  name : String
  typeName : String
  deriving DecidableEq, Repr

/-- An object type: a name and fields in order. -/
structure ObjectType where
  name : String
  fields : List FieldDefinition
  deriving DecidableEq, Repr

/-- A described object: its id, its class, and its name if the class goes by names. -/
structure ObjectRef where
  id : String
  cls : ObjectClass
  name : String
  deriving DecidableEq, Repr

/-- Whether two described objects are the same: by name where their class goes by names, else by
id. -/
def ObjectRef.same (a b : ObjectRef) : Bool :=
  if a.cls.goesByName then a.cls == b.cls && a.name == b.name else a == b

/-- Which syntax node: one listed in a scene, one of a module, or the only one of its class. -/
inductive SyntaxPlace where
  | listed (id : String)
  /-- The node that was made together with a listed one, for an attribute of it. -/
  | within (id : String)
  | entry (module : String) (index : Nat)
  | shared (cls : String)
  deriving DecidableEq, Repr

/-- A syntax node: where it is, its class, and the text it is labelled with. -/
structure SyntaxRef where
  place : SyntaxPlace
  cls : String
  text? : Option String
  deriving DecidableEq, Repr

/-! ## §2 Values -/

/-- A value. -/
inductive Value where
  | none
  | truth (b : Bool)
  | int (i : Int)
  | real (x : Binary)
  | text (s : String)
  | tuple (items : List Value)
  | list (items : List Value)
  /-- Values by names, each name once. -/
  | mapping (entries : List (String × Value))
  | vertex (name : String)
  /-- A place in a tree; the index is kept as it was given, which may be any value. -/
  | treeNode (tree : Owner ArrayTree) (index : Value)
  /-- A place in a graph. It may be claimed of an owner that is no graph, and has no content
  then. -/
  | graphNode (graph : Owner (Option CompressedGraph)) (index : Value)
  | scalarType (name : String)
  | objectType (t : ObjectType)
  | field (f : FieldDefinition)
  | syntaxNode (node : SyntaxRef)
  | object (o : ObjectRef)

instance : Inhabited Value := ⟨.none⟩

namespace Value

/-- The class of a value. -/
def nodeClass : Value → NodeClass
  | none => .none
  | truth _ => .truth
  | int _ => .integer
  | real _ => .real
  | text _ => .text
  | tuple _ => .tuple
  | list _ => .list
  | mapping _ => .mapping
  | vertex _ => .vertex
  | treeNode _ _ => .treeNode
  | graphNode _ _ => .graphNode
  | scalarType _ => .scalarType
  | objectType _ => .objectType
  | field _ => .field
  | syntaxNode node => .grammar node.cls
  | object o => .described o.cls

/-- What a value holds in the attribute by which nodes list their children. What syntax nodes are
given there is data, and counts as absent. -/
def childrenAttribute : Value → ChildrenAttribute
  | object o => o.cls.children
  | vertex _ | treeNode _ _ | graphNode _ _ | scalarType _ | objectType _ | field _ => .method
  | _ => .absent

/-- The name of a value's class. -/
def className (v : Value) : String := v.nodeClass.name

/-- The name of a value's class where the value is of no use for an operation. -/
def operandName (v : Value) : String := v.nodeClass.operandName

/-- The class name of the first part of a value that keeps it out of sets: a list, a mapping, or an
object that is not hashable. A place has its index for a part. -/
def unhashablePart? : Value → Option String
  | list _ => some "list"
  | mapping _ => some "dict"
  | object o => if o.cls.isHashable then Option.none else some o.cls.name
  | tuple items => first? items
  | treeNode _ index | graphNode _ index => unhashablePart? index
  | none | truth _ | int _ | real _ | text _ | vertex _ | scalarType _ | objectType _ | field _ | syntaxNode _ => Option.none
where
  /-- The first such part of the items of a tuple. -/
  first? : List Value → Option String
    | [] => Option.none
    | item :: later => unhashablePart? item <|> first? later

/-- The integer a value counts as, if it counts as one. -/
def number? : Value → Option Int
  | truth b => some (if b then 1 else 0)
  | int i => some i
  | _ => Option.none

/-- The number a value is, if it is one. -/
def numeral? : Value → Option Numeral
  | truth b => some (.truth b)
  | int i => some (.int i)
  | real x => some (.real x)
  | _ => Option.none

/-- A number as a value. -/
def ofNumeral : Numeral → Value
  | .truth b => truth b
  | .int i => int i
  | .real x => real x

/-- The number a value is, or its class. -/
def givenNumeral (v : Value) : GivenNumeral :=
  match v.numeral? with
  | some n => .ok n
  | Option.none => .error v.operandName

/-- The scalar a value is as an entry of an array. -/
def scalar (v : Value) : Scalar :=
  match v, v.numeral? with
  | none, _ => .absent
  | text s, _ => .text s
  | _, some n => .numeral n
  | v, Option.none => .stray v.operandName

/-- A value as data of an array: its items are rows. -/
def nested : Value → Nested Scalar
  | tuple items | list items => .row (rows items)
  | v => .leaf v.scalar
where
  /-- The items as rows. -/
  rows : List Value → List (Nested Scalar)
    | [] => []
    | item :: later => nested item :: rows later

/-- A value where an index is expected. -/
def givenIndex (v : Value) : GivenIndex :=
  match v, v.numeral? with
  | list items, _ => .list (items.map nested)
  | _, some n => .number n
  | v, Option.none => .stray v.operandName

/-- Whether a value counts as true: it is not nothing, zero or empty. -/
def isTrue : Value → Bool
  | none => false
  | truth b => b
  | int i => i != 0
  | real x => x.significand != 0
  | text s => !s.isEmpty
  | tuple items | list items => !items.isEmpty
  | mapping entries => !entries.isEmpty
  | _ => true

/-! ## §3 Sameness -/

/-- Whether two values are one number. -/
def sameNumber (a b : Value) : Bool :=
  match a.numeral?, b.numeral? with
  | some m, some n => m.exact == n.exact
  | _, _ => false

/-- Whether a seen set may take one value for the other. -/
def same : Value → Value → Bool
  | none, none => true
  | truth a, b => sameNumber (truth a) b
  | int a, b => sameNumber (int a) b
  | real a, b => sameNumber (real a) b
  | text a, text b => a == b
  | tuple as, tuple bs => sameAll as bs
  | list as, list bs => sameAll as bs
  | mapping as, mapping bs => sameEntries as bs
  | vertex a, vertex b => a == b
  | treeNode a i, treeNode b j => a.serial == b.serial && same i j
  | graphNode a i, graphNode b j => a.serial == b.serial && same i j
  | scalarType a, scalarType b => a == b
  | objectType a, objectType b => a == b
  | field a, field b => a == b
  | syntaxNode a, syntaxNode b => a == b
  | object a, object b => a.same b
  | _, _ => false
where
  /-- The same, one by one. -/
  sameAll : List Value → List Value → Bool
    | [], [] => true
    | a :: as, b :: bs => same a b && sameAll as bs
    | _, _ => false
  /-- The same names with the same values. -/
  sameEntries : List (String × Value) → List (String × Value) → Bool
    | [], [] => true
    | (name, a) :: as, (other, b) :: bs => name == other && same a b && sameEntries as bs
    | _, _ => false

end Value

end GraphFold
