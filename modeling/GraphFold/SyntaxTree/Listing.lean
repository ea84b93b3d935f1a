/-
GraphFold.SyntaxTree.Listing — syntax trees written down as text.

A listing has one line for each node, the root first. A line is the class of
the node, then its attributes: a name, an equals sign and a value. A value is
the number of a node, numbers in brackets with commas between them, where a
dash stands for no node, or a text in double quotes. Nodes are numbered by
their lines, from 0, so that a node may be shared, and no value holds a blank.

    Module body=[1,-]
    Name id="x" ctx=2
    Load
-/
import GraphFold.Scene

namespace GraphFold.SyntaxTree

/-- The text between two characters, if it stands between them. -/
def between? (opening closing : Char) (cs : List Char) : Option (List Char) :=
  match cs with
  | c :: rest =>
    if c = opening ∧ rest.getLast? = some closing then some rest.dropLast else none
  | [] => none

/-- The node of a number in a module. -/
def nodeOf? (module : String) (word : String) : Option Description :=
  word.toNat?.map (.entry module)

/-- One item between brackets: a node or none. -/
def itemOf? (module : String) (word : String) : Option Description :=
  if word = "-" then some (.value .none) else nodeOf? module word

/-- The value of an attribute. -/
def attributeValue? (module : String) (word : String) : Option Description :=
  match between? '"' '"' word.toList, between? '[' ']' word.toList with
  | some text, _ => some (.value (.text (String.ofList text)))
  | none, some [] => some (.list [])
  | none, some items => ((String.ofList items).splitOn ",").mapM (itemOf? module) |>.map .list
  | none, none => nodeOf? module word

/-- An attribute: its name before the first equals sign, its value after it. -/
def attributeOf? (module : String) (word : String) : Option (String × Description) :=
  let cs := word.toList
  match cs.dropWhile (· ≠ '=') with
  | _ :: value =>
    (attributeValue? module (String.ofList value)).map fun v =>
      (String.ofList (cs.takeWhile (· ≠ '=')), v)
  | [] => none

/-- The node a line stands for. -/
def entryOf? (module : String) (line : String) : Option SyntaxEntry :=
  match (line.splitOn " ").filter (· ≠ "") with
  | cls :: words => (words.mapM (attributeOf? module)).map fun attributes => ⟨cls, attributes⟩
  | [] => none

/-- The position of a line that stands for no node. -/
structure BadLine where
  position : Nat
  deriving DecidableEq, Repr

/-- The report on a bad line; lines are counted from 1. -/
def BadLine.message (b : BadLine) : String :=
  "line " ++ toString (b.position + 1) ++ " of the tree stands for no node"

/-- The nodes of the lines from a position on. -/
def entriesFrom (module : String) : Nat → List String → Except BadLine (List SyntaxEntry)
  | _, [] => .ok []
  | position, line :: later =>
    match entryOf? module line with
    | some entry => (entriesFrom module (position + 1) later).map (entry :: ·)
    | none => .error ⟨position⟩

/-- The nodes of a listing, which refer to each other as nodes of a module. -/
def ofListing? (module : String) (lines : List String) : Except BadLine (Array SyntaxEntry) :=
  (entriesFrom module 0 lines).map List.toArray

end GraphFold.SyntaxTree
