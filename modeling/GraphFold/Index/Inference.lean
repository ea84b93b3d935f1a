/-
GraphFold.Index.Inference — arrays of data that is given without an element
type.

The element type is the one that all the entries have in common. Numbers are
of the kind they are given as. A text counts as a number of the type that it
names; a text that names none has no type, and no array is made with it.
-/
import GraphFold.Index.Array
import GraphFold.Index.DtypeName
import GraphFold.Index.Promotion

namespace GraphFold.Index

/-- Why data without an element type does not become an array. -/
inductive InferenceError where
  /-- A text is wrong as a name of a type. -/
  | name (e : DtypeNameError)
  /-- The entries have no element type in common; they are of these types. -/
  | apart (types : List Dtype)
  | conversion (e : ConversionError)
  deriving DecidableEq, Repr

/-- The kind of number that a text counts as, or why it counts as none. -/
def kindOfText? (s : String) : Except DtypeNameError NumberKind :=
  match NamedType.ofName? s with
  | .ok ⟨.numbers d, _⟩ | .ok ⟨.reversed d, _⟩ => .ok (.typed d)
  | .ok _ => .error (.foreign s)
  | .error e => .error e

/-- The kinds of the entries. A name that fails for good is found first, and then a text without a
type. -/
def kinds? (entries : List Scalar) : Except InferenceError (List NumberKind) :=
  let final? : Scalar → Option DtypeNameError
    | .text s =>
      match kindOfText? s with
      | .error e => if e.isFinal then some e else none
      | .ok _ => none
    | _ => none
  let untyped? : Scalar → Option String
    | .text s => if (kindOfText? s).toOption.isNone then some s else none
    | _ => none
  let kind? : Scalar → Option NumberKind
    | .numeral n => some (.ofNumeral n)
    | .undefined => some .anyReal
    | .text s => (kindOfText? s).toOption
    | _ => none
  match entries.findSome? final?, entries.findSome? untyped? with
  | some e, _ => .error (.name e)
  | none, some s => .error (.conversion (.untyped s))
  | none, none => .ok (entries.filterMap kind?)

/-- Makes an array of the element type that data has of its own. No number may be missing. -/
def convertOwn? (data : Nested Scalar) : Except InferenceError NumberArray := do
  let isAbsent : Scalar → Bool
    | .absent => true
    | _ => false
  if data.leaves.any isAbsent then
    throw (.conversion .missing)
  let kinds ← kinds? data.leaves
  match Dtype.common? kinds with
  | some dtype => (convert? dtype data).mapError .conversion
  | none => throw (.apart (kinds.map NumberKind.dtype).eraseDups)

end GraphFold.Index
