/-
GraphFold.NodeClass — the classes of values, and the order in which the classes
of a value are asked for an adapter.

A class has a name, a qualified name and an ORDER: itself first, then the
classes above it, the nearest first. Two classes may share their names; the
tag tells them apart.

  §1 Described objects — the classes an object of a scene may have, and what
                         such objects can do by themselves: `ObjectClass`.
  §2 All classes       — `NodeClass`, `order`, `tag`.
-/
import GraphFold.SyntaxTree.Grammar

namespace GraphFold

/-! ## §1 Described objects -/

/-- What the objects of a class hold in the attribute by which nodes list their children. -/
inductive ChildrenAttribute where
  /-- There is no such attribute. -/
  | absent
  | nothing
  /-- A number, which is no function. -/
  | number (i : Int)
  /-- A function that lists the children. -/
  | method
  deriving DecidableEq, Repr

namespace ChildrenAttribute

/-- Whether a node with this attribute counts as one that reports its children: there is one, and
it holds something. -/
def isHeld : ChildrenAttribute → Bool
  | absent | nothing => false
  | number _ | method => true

/-- Whether what it holds is a function. -/
def isCallable : ChildrenAttribute → Bool
  | method => true
  | _ => false

end ChildrenAttribute

/-- What the objects of a class are told apart by. -/
inductive Distinction where
  /-- Each is equal to itself alone. -/
  | itself
  /-- Those of one name are equal. -/
  | name
  /-- Each is equal to itself alone, and carries a key by which it is told apart from others. -/
  | key
  deriving DecidableEq, Repr

/-- A class of described objects. -/
structure ObjectClass where
  /-- What the class is called where classes are listed. -/
  tag : String
  name : String
  /-- The name with that of the class it is defined in. -/
  qualifiedName : String
  /-- The classes above it, the nearest first. -/
  above : List ObjectClass
  children : ChildrenAttribute
  apart : Distinction
  /-- Whether the objects can be members of a set by themselves. -/
  isHashable : Bool
  deriving Repr

namespace ObjectClass

mutual

/-- Whether two classes are one: they agree in everything. -/
def decEq : (c d : ObjectClass) → Decidable (c = d)
  | ⟨tag, name, qualifiedName, above, children, apart, isHashable⟩,
    ⟨tag', name', qualifiedName', above', children', apart', isHashable'⟩ =>
    have := decEqAll above above'
    decidable_of_iff (tag = tag' ∧ name = name' ∧ qualifiedName = qualifiedName' ∧
      above = above' ∧ children = children' ∧ apart = apart' ∧ isHashable = isHashable')
      (by rw [mk.injEq])

/-- The same of classes one by one. -/
def decEqAll : (cs ds : List ObjectClass) → Decidable (cs = ds)
  | [], [] => isTrue rfl
  | [], _ :: _ | _ :: _, [] => isFalse nofun
  | c :: cs, d :: ds =>
    have := decEq c d
    have := decEqAll cs ds
    decidable_of_iff (c = d ∧ cs = ds) (by rw [List.cons.injEq])

end

instance : DecidableEq ObjectClass := decEq

/-- The class of a name below others. Its objects are hashable, and have neither children nor keys. -/
def ofName (name : String) (above : List ObjectClass) : ObjectClass :=
  ⟨name, name, name, above, .absent, .itself, true⟩

/-- Whether the objects carry a key of their own. -/
def hasKey (c : ObjectClass) : Bool := c.apart == .key

/-- Whether objects of one name are equal. -/
def goesByName (c : ObjectClass) : Bool := c.apart == .name

/-- A class and the ones above it, the nearest first. -/
def order (c : ObjectClass) : List ObjectClass := c :: c.above

end ObjectClass

/-! ## §2 All classes -/

/-- The class of a value. -/
inductive NodeClass where
  /-- The class above all others. -/
  | any
  | none
  | truth
  | integer
  | real
  | text
  | tuple
  | list
  | mapping
  | scalarType
  | objectType
  | field
  | treeNode
  | graphNode
  | vertex
  | described (c : ObjectClass)
  /-- A class of syntax nodes, or one beside them, by its name. -/
  | grammar (name : String)
  deriving DecidableEq, Repr

namespace NodeClass

/-- The name of a class. -/
def name : NodeClass → String
  | any => "object"
  | none => "NoneType"
  | truth => "bool"
  | integer => "int"
  | real => "float"
  | text => "str"
  | tuple => "tuple"
  | list => "list"
  | mapping => "dict"
  | scalarType => "ScalarType"
  | objectType => "ObjectType"
  | field => "FieldDefinition"
  | treeNode => "TopologyNode"
  | graphNode => "GraphNode"
  | vertex => "Vertex"
  | described c => c.name
  | grammar name => name

/-- The name of a class with the class it is defined in. -/
def qualifiedName : NodeClass → String
  | described c => c.qualifiedName
  | c => c.name

/-- What a class is called where classes are listed. -/
def tag : NodeClass → String
  | described c => c.tag
  | grammar name => "ast." ++ name
  | c => c.name

/-- What a class is called where a value is of no use for an operation: by its name, and the root
of the classes of syntax nodes as it is listed. -/
def operandName (c : NodeClass) : String :=
  if c = grammar SyntaxTree.rootClass then c.tag else c.name

/-- A class and the ones above it, in the order in which they are asked. -/
def order : NodeClass → List NodeClass
  | any => [any]
  | truth => [truth, integer, any]
  | described c => c.order.map described ++ [any]
  | grammar name => (SyntaxTree.lineage name).map grammar ++ [any]
  | c => [c, any]

/-- The classes that are not described and not of syntax nodes. -/
def builtIn : List NodeClass :=
  [any, none, truth, integer, text, tuple, list, scalarType, objectType, field, treeNode,
    graphNode, vertex]

/-- Why a tag stands for no class. -/
inductive TagError where
  /-- There is nothing of this name. -/
  | unknown (tag : String)
  /-- There is nothing of this name beside the classes of syntax nodes. -/
  | unknownSyntax
  deriving DecidableEq, Repr

/-- What a tag stands for. -/
inductive Tagged where
  | cls (c : NodeClass)
  /-- A function, which has a name but is no class. -/
  | function (name : String)
  /-- A value that is neither, with its class if it cannot be a member of a set. -/
  | constant (unhashable : Option String)

/-- What is meant by a tag, where these classes are described. -/
def Tagged.ofTag? (classes : List ObjectClass) (t : String) : Except TagError Tagged :=
  if t.startsWith "ast." then
    let name := (t.drop 4).toString
    if SyntaxTree.isClass name || SyntaxTree.toolClasses.contains name then
      .ok (.cls (grammar name))
    else if SyntaxTree.functions.contains name then
      .ok (.function name)
    else
      match SyntaxTree.constants.find? fun entry => entry.1 == name with
      | some entry => .ok (.constant entry.2)
      | .none => .error .unknownSyntax
  else
    match (builtIn ++ classes.map described).find? fun c => c.tag == t with
    | some c => .ok (.cls c)
    | .none => .error (.unknown t)

end NodeClass

end GraphFold
