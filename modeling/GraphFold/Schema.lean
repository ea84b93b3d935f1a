/-
GraphFold.Schema — collections of named types.

Object types refer to other types by name only, so the graph between them
exists only through a schema, which a walk carries as its context. A name
resolves to the type the schema holds under it.

  §1 Schemas  — `Schema.ofDefinitions?`, `Schema.resolve`.
  §2 Contexts — what a walk may carry: plain data, a vertex graph, a schema.
-/
import GraphFold.OrderedMap
import GraphFold.Value.Text
import GraphFold.VertexGraph

namespace GraphFold

/-! ## §1 Schemas -/

/-- A collection of types by name, in order. A type is any value but `none`. -/
structure Schema where
  types : OrderedMap String Value

/-- Why a name does not resolve, or definitions do not make a schema. -/
inductive SchemaError where
  /-- There is no schema to resolve the name in; the context has this class. -/
  | noSchema (name : String) (context : String)
  | unknownType (name : String)
  deriving DecidableEq, Repr

/-- The report on an error. -/
def SchemaError.message : SchemaError → String
  | .noSchema name context =>
    "cannot resolve type '" ++ name ++ "' without a Schema; got " ++ context
  | .unknownType name => "unknown type '" ++ name ++ "'"

/-- The name of an object type that is defined although the name is taken. -/
structure DuplicateType where
  name : String
  deriving DecidableEq, Repr

/-- The report on a duplicate. -/
def DuplicateType.message (d : DuplicateType) : String :=
  "type '" ++ d.name ++ "' is defined more than once"

/-- The object type with these fields. -/
def ObjectType.ofFields (name : String) (fields : OrderedMap String String) : ObjectType :=
  ⟨name, fields.entries.map fun (field, typeName) => ⟨name, field, typeName⟩⟩

namespace Schema

/-- The scalar types of a schema that does not name its own. -/
def standardScalars : List String := ["String", "Int", "Float", "Boolean", "ID"]

/-- Adds object types one by one; a name that is taken stops it. -/
def addObjects :
    Schema → List (String × OrderedMap String String) → Except DuplicateType Schema
  | s, [] => .ok s
  | s, (name, fields) :: later =>
    if s.types.contains name then
      .error ⟨name⟩
    else
      addObjects ⟨s.types.insert name (.objectType (.ofFields name fields))⟩ later

/-- The schema of these scalar types and object types: for each object type its fields,
each with the name of its type. -/
def ofDefinitions? (objects : OrderedMap String (OrderedMap String String))
    (scalars : List String) : Except DuplicateType Schema :=
  addObjects ⟨.ofList (scalars.map fun name => (name, .scalarType name))⟩ objects.entries

/-- The type of this name. -/
def resolve (s : Schema) (name : String) : Except SchemaError Value :=
  match s.types.find? name with
  | none | some .none => .error (.unknownType name)
  | some type => .ok type

/-- Whether two schemas hold the same types under the same names. -/
def same (a b : Schema) : Bool := a.types.same Value.same b.types

end Schema

/-! ## §2 Contexts -/

/-- What a walk may carry as its context. Graphs and schemas go by a name. -/
inductive Context where
  | plain (v : Value)
  | vertices (name : String) (graph : VertexGraph)
  | schema (name : String) (schema : Schema)
  /-- Something else that goes by a name, of this class. -/
  | other (cls : Owner String)

namespace Context

/-- The name by which a context is reported. -/
def label : Context → String
  | plain v => v.label
  | vertices name _ => "adj:" ++ name
  | schema name _ => "schema:" ++ name
  | other cls => "schema:" ++ cls.name

/-- The name of a context's class. -/
def className : Context → String
  | plain v => v.className
  | vertices _ _ => "dict"
  | schema _ _ => "Schema"
  | other cls => cls.content

/-- Whether two contexts have the same content. -/
def same : Context → Context → Bool
  | plain a, plain b => a.same b
  | vertices _ a, vertices _ b => a.same b
  | schema _ a, schema _ b => a.same b
  | other a, other b => a.serial == b.serial
  | _, _ => false

/-- The type of this name, if the context is a schema. -/
def resolveType (c : Context) (name : String) : Except SchemaError Value :=
  match c with
  | schema _ s => s.resolve name
  | c => .error (.noSchema name c.className)

/-- The neighbours of a vertex, if the context is a vertex graph. -/
def neighbours (c : Context) (name : String) : List String :=
  match c with
  | vertices _ graph => graph.neighbours name
  | _ => []

end Context

end GraphFold
