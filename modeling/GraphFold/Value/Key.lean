/-
GraphFold.Value.Key — the keys by which a seen set tells nodes apart, and their
order.

A place in a tree or graph has a key made of its owner and its index; every
other key is a value. Keys are ordered by their CODE, a sequence of integers
from which the value can be read back up to sameness: values that are the same
have one code, and values that differ have different ones. The order itself
means nothing; it makes the seen set a search tree.
-/
import GraphFold.Value
import GraphFold.Value.Text

namespace GraphFold

/-- What kind of owner a place belongs to. -/
inductive PlaceKind where
  | tree
  | graph
  deriving DecidableEq, Repr

/-- The key of a node. -/
inductive Key where
  | value (v : Value)
  /-- The place at an index of the owner with this serial number; the name is for labels. -/
  | place (kind : PlaceKind) (serial : Nat) (owner : String) (index : Value)

/-! ## Codes -/

/-- A text, its length first. -/
def textCode (s : String) : List Int := s.length :: s.toList.map fun c => (c.toNat : Int)

/-- A list of parts, its length first. -/
def listCode {α : Type} (code : α → List Int) (items : List α) : List Int :=
  items.length :: items.flatMap code

/-- A field by its three texts. -/
def FieldDefinition.code (f : FieldDefinition) : List Int :=
  textCode f.owner ++ textCode f.name ++ textCode f.typeName

/-- An object type by its name and fields. -/
def ObjectType.code (t : ObjectType) : List Int :=
  textCode t.name ++ listCode FieldDefinition.code t.fields

/-- A number by its integer part and, unless it is whole, by its bits. -/
def numberCode (n : Index.Numeral) : List Int :=
  if n.isWhole then [1, n.floor] else [15, n.exact.1, n.exact.2]

/-- What is held in an attribute. -/
def ChildrenAttribute.code : ChildrenAttribute → List Int
  | absent => [0, 0]
  | nothing => [1, 0]
  | number i => [2, i]
  | method => [3, 0]

/-- What objects are told apart by. -/
def Distinction.code : Distinction → Int
  | itself => 0
  | name => 1
  | key => 2

/-- A class by all its parts. -/
def ObjectClass.code : ObjectClass → List Int
  | ⟨tag, name, qualifiedName, above, children, apart, isHashable⟩ =>
    textCode tag ++ textCode name ++ textCode qualifiedName ++ ((above.length : Int) :: codes above)
      ++ children.code ++ [apart.code, if isHashable then 1 else 0]
where
  /-- The codes of classes, one after the other. -/
  codes : List ObjectClass → List Int
    | [] => []
    | c :: later => code c ++ codes later

/-- A described object by its class, and by its name if the class goes by names, or by its id. -/
def ObjectRef.code (o : ObjectRef) : List Int :=
  if o.cls.goesByName then
    0 :: o.cls.code ++ textCode o.name
  else
    1 :: o.cls.code ++ textCode o.id ++ textCode o.name

/-- A syntax node by its place, its class and its text. -/
def SyntaxRef.code (node : SyntaxRef) : List Int :=
  (match node.place with
    | .listed id => 0 :: textCode id
    | .entry module index => 1 :: (index : Int) :: textCode module
    | .shared cls => 2 :: textCode cls
    | .within id => 3 :: textCode id)
    ++ textCode node.cls
    ++ (match node.text? with
      | none => [0]
      | some text => 1 :: textCode text)

/-- The code of a value. -/
def Value.code : Value → List Int
  | .none => [0]
  | .truth b => numberCode (.truth b)
  | .int i => numberCode (.int i)
  | .real x => numberCode (.real x)
  | .text s => 2 :: textCode s
  | .tuple items => 3 :: (items.length : Int) :: codes items
  | .list items => 4 :: (items.length : Int) :: codes items
  | .mapping entries => 16 :: (entries.length : Int) :: entryCodes entries
  | .vertex name => 5 :: textCode name
  | .treeNode tree index => 6 :: (tree.serial : Int) :: code index
  | .graphNode graph index => 7 :: (graph.serial : Int) :: code index
  | .scalarType name => 8 :: textCode name
  | .objectType t => 9 :: t.code
  | .field f => 10 :: f.code
  | .syntaxNode node => 11 :: node.code
  | .object o => 12 :: o.code
where
  /-- The codes of the parts, one after the other. -/
  codes : List Value → List Int
    | [] => []
    | item :: later => code item ++ codes later
  /-- The codes of names and their values. -/
  entryCodes : List (String × Value) → List Int
    | [] => []
    | (name, value) :: later => textCode name ++ code value ++ entryCodes later

namespace Key

/-- The code of a key. -/
def code : Key → List Int
  | value v => v.code
  | place .tree serial _ index => 13 :: (serial : Int) :: index.code
  | place .graph serial _ index => 14 :: (serial : Int) :: index.code

/-- Keys are compared by their codes. -/
instance : Ord Key := ⟨compareOn code⟩

/-- The name by which a key is reported. -/
def label : Key → String
  | value v => v.label
  | place _ _ owner index => placeLabel owner index

/-- The class name of the part of a key that keeps it out of sets. -/
def unhashablePart? : Key → Option String
  | value v => v.unhashablePart?
  | place _ _ _ index => index.unhashablePart?

end Key

end GraphFold
