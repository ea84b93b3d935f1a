/-
GraphFold.Value.Text — values as texts: exact forms, plain forms, and labels.

  §1 Exact forms — `Value.exact` shows what a value is made of.
  §2 Plain forms — `Value.plain` is the text itself for a text.
  §3 Labels      — the short names by which nodes and keys are reported.
-/
import GraphFold.Value
import GraphFold.Text.Quoted

namespace GraphFold

/-- The word for a truth value. -/
def truthWord (b : Bool) : String := if b then "True" else "False"

/-- The word for the absence of a value. -/
def noneWord : String := "None"

/-! ## §1 Exact forms -/

/-- Items in parentheses; a single one is followed by a comma. -/
def tupleForm : List String → String
  | [item] => "(" ++ item ++ ",)"
  | items => "(" ++ ", ".intercalate items ++ ")"

/-- Named parts in parentheses after a class name. -/
def recordForm (cls : String) (parts : List (String × String)) : String :=
  cls ++ "(" ++ ", ".intercalate (parts.map fun (name, form) => name ++ "=" ++ form) ++ ")"

/-- A field with all its parts. -/
def FieldDefinition.exact (f : FieldDefinition) : String :=
  recordForm "FieldDefinition" [("owner", Text.quoted f.owner), ("name", Text.quoted f.name),
    ("type_name", Text.quoted f.typeName)]

/-- A syntax node by its class and, if it has one, its text. -/
def SyntaxRef.label (node : SyntaxRef) : String :=
  match node.text? with
  | some text => node.cls ++ ":" ++ text
  | none => node.cls

namespace Value

/-- A text as it is; for another value what is given for its form. -/
def plainOr (form : String) : Value → String
  | text s => s
  | _ => form

/-- A value with what it is made of. An object is shown by its id. -/
def exact : Value → String
  | none => noneWord
  | truth b => truthWord b
  | int i => toString i
  | real x => x.text
  | text s => Text.quoted s
  | tuple items => tupleForm (exacts items)
  | list items => "[" ++ ", ".intercalate (exacts items) ++ "]"
  | mapping entries => "\x7b" ++ ", ".intercalate (entryForms entries) ++ "\x7d"
  | vertex name => recordForm "Vertex" [("name", Text.quoted name)]
  | treeNode _ index => "TopologyNode(" ++ index.plainOr (exact index) ++ ")"
  | graphNode _ index => "GraphNode(" ++ index.plainOr (exact index) ++ ")"
  | scalarType name => recordForm "ScalarType" [("name", Text.quoted name)]
  | objectType t =>
    recordForm "ObjectType" [("name", Text.quoted t.name),
      ("fields", tupleForm (t.fields.map FieldDefinition.exact))]
  | field f => f.exact
  | syntaxNode node => "<" ++ node.label ++ ">"
  | object o => o.id
where
  /-- The exact forms of the parts. -/
  exacts : List Value → List String
    | [] => []
    | item :: later => exact item :: exacts later
  /-- Names with the exact forms of their values. -/
  entryForms : List (String × Value) → List String
    | [] => []
    | (name, value) :: later => (Text.quoted name ++ ": " ++ exact value) :: entryForms later

/-! ## §2 Plain forms -/

/-- A text as it is; any other value in its exact form. -/
def plain (v : Value) : String := v.plainOr v.exact

end Value

/-! ## §3 Labels -/

/-- A place in an owner. -/
def placeLabel (owner : String) (index : Value) : String := owner ++ "#" ++ index.plain

/-- A field as owner, name and type. -/
def FieldDefinition.label (f : FieldDefinition) : String :=
  "field:" ++ f.owner ++ "." ++ f.name ++ ":" ++ f.typeName

namespace Value

/-- The name by which a value is reported; texts are quoted without escapes. -/
def label : Value → String
  | none => noneWord
  | truth b => truthWord b
  | int i => toString i
  | real x => x.text
  | text s => "'" ++ s ++ "'"
  | tuple items => "(" ++ ", ".intercalate (labels items) ++ ")"
  | list items => "[" ++ ", ".intercalate (labels items) ++ "]"
  | mapping entries => exact (mapping entries)
  | vertex name => "v:" ++ name
  | treeNode tree index => placeLabel tree.name index
  | graphNode graph index => placeLabel graph.name index
  | scalarType name => "scalar:" ++ name
  | objectType t => "type:" ++ t.name
  | field f => f.label
  | syntaxNode node => node.label
  | object o => o.id
where
  /-- The labels of the parts. -/
  labels : List Value → List String
    | [] => []
    | item :: later => label item :: labels later

end Value

end GraphFold
