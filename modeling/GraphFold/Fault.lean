/-
GraphFold.Fault — how the computations of a scene fail, and the reports on it.

A fault is a cause. Its kind sorts it among the errors a caller may tell apart,
and its message is the report; a few kinds are reported without one.
-/
import GraphFold.Index.Buffer
import GraphFold.Schema

namespace GraphFold

open Index (Numeral PickError)

/-- The kinds of errors. -/
inductive ErrorKind where
  /-- An argument is of a wrong type. -/
  | argument
  /-- An array is of a wrong element type or rank. -/
  | array
  /-- A value lacks what is asked of it. -/
  | lacking
  /-- A position does not exist. -/
  | index
  /-- A name does not exist. -/
  | key
  | lookup
  /-- A file does not exist. -/
  | missingFile
  /-- A directory stands where a file is expected. -/
  | directory
  /-- A file stands where a directory is expected. -/
  | notDirectory
  /-- A name is too long for a file. -/
  | longName
  /-- A text is no expression. -/
  | expression
  /-- A number does not fit. -/
  | overflow
  /-- Numbers of several types have none in common. -/
  | promotion
  /-- An array is laid out in another way than is expected. -/
  | layout
  /-- A value does not fit the memory. -/
  | memory
  | runtime
  | schema
  /-- A walk was given up. -/
  | traversal
  | type
  | value
  deriving DecidableEq, Repr

/-- Whether errors of a kind are reported with a message. -/
def ErrorKind.hasMessage : ErrorKind → Bool
  | argument | array | lacking | overflow => false
  | _ => true

/-- The kinds of errors that a script may raise. -/
inductive ThrownKind where
  | lookup
  | runtime
  | schema
  | traversal
  | type
  | value
  deriving DecidableEq, Repr

/-- A scripted kind among all kinds. -/
def ThrownKind.toErrorKind : ThrownKind → ErrorKind
  | lookup => .lookup
  | runtime => .runtime
  | schema => .schema
  | traversal => .traversal
  | type => .type
  | value => .value

/-- The report on a walk given up with a reason at a depth. -/
def traversalMessage (depth : Nat) (reason : String) : String :=
  "traversal failed at depth " ++ toString depth ++ ": " ++ reason

/-- Why a computation of a scene failed. -/
inductive Fault where
  /-- A script raised an error, with a value for its text. -/
  | thrown (kind : ThrownKind) (given : Value)
  /-- A node without a key of its own is not hashable. -/
  | unhashableNode (cls : String)
  /-- A key has a part that is not hashable. -/
  | unhashableKey (cls : String)
  /-- A node neither lists its children nor has an adapter. -/
  | incapable (cls : String)
  /-- What was returned for children has no items. -/
  | notIterable (cls : String)
  /-- A value of this class holds nothing that could be looked for. -/
  | notContainer (cls : String)
  /-- What stands for the children of a node is not a function. -/
  | notCallable (cls : String)
  /-- A lazy listing stopped. -/
  | stopped
  /-- A text was to be joined from items one of which is no text. -/
  | notText (index : Nat) (cls : String)
  /-- An operation does not apply to values of these classes. -/
  | operands (operation left right : String)
  /-- A sequence is repeated by something that is no number. -/
  | repetition (cls : String)
  /-- A sequence is continued by a value of another class only. -/
  | concatenation (own other : String)
  /-- Values of these classes have no order. -/
  | unordered (sign left right : String)
  /-- A value of this class is to be shown as a number. -/
  | notShownAsNumber (cls : String)
  /-- A value that names an attribute is no text. -/
  | attributeName (cls : String)
  | schema (e : SchemaError)
  /-- A tree or graph has no node of this index. -/
  | nodeRange (index : Numeral) (size : Nat)
  | pick (e : PickError)
  /-- A number does not fit. -/
  | overflow
  /-- A value does not fit the memory. -/
  | tooLarge
  /-- Names of parts cannot be looked up in a thing of this class. -/
  | notSubscriptable (cls : String)
  /-- A value of this class has no length. -/
  | unsized (cls : String)
  /-- Every node of a tree has a parent. -/
  | noRoot
  /-- A value lacks what is asked of it. -/
  | lacking
  /-- There is nothing of this name. -/
  | unknownName (name : String)
  /-- There is nothing of a name that is no text, but is shown like this. -/
  | unknownKey (shown : String)

namespace Fault

/-- The kind of an index that picks no entry. -/
def pickKind : PickError → ErrorKind
  | .missing _ _ | .notIndex | .maskLength _ _ | .tooMany _ => .index
  | .overflow => .overflow
  | .notSingle => .type
  | .uneven _ => .value

/-- The kind of a fault. -/
def kind : Fault → ErrorKind
  | thrown kind _ => kind.toErrorKind
  | unhashableNode _ | unhashableKey _ | incapable _ | notIterable _ | notCallable _
  | notContainer _ | notText _ _ | operands _ _ _ | repetition _ | concatenation _ _ | unordered _ _ _
  | notShownAsNumber _ | attributeName _ | notSubscriptable _ | unsized _ => .type
  | stopped => .runtime
  | schema _ => .schema
  | nodeRange _ _ => .index
  | pick e => pickKind e
  | overflow => .overflow
  | tooLarge => .memory
  | noRoot => .value
  | lacking => .lacking
  | unknownName _ | unknownKey _ => .key

/-- The report on a fault. -/
def message : Fault → String
  | thrown .traversal given => traversalMessage 0 given.plain
  | thrown _ given => given.plain
  | unhashableNode cls =>
    "node of type '" ++ cls ++
      "' is unhashable; define a traversal_key to give it a seen-set identity"
  | unhashableKey cls => "unhashable type: '" ++ cls ++ "'"
  | incapable cls =>
    "node of type '" ++ cls ++
      "' does not implement children(state) and no adapter is registered for it"
  | notIterable cls => "'" ++ cls ++ "' object is not iterable"
  | notContainer cls => "argument of type '" ++ cls ++ "' is not iterable"
  | notCallable cls => "'" ++ cls ++ "' object is not callable"
  | stopped => "lazy stop"
  | notText index cls =>
    "sequence item " ++ toString index ++ ": expected str instance, " ++ cls ++ " found"
  | operands operation left right =>
    "unsupported operand type(s) for " ++ operation ++ ": '" ++ left ++ "' and '" ++ right ++ "'"
  | repetition cls => "can't multiply sequence by non-int of type '" ++ cls ++ "'"
  | concatenation own other =>
    "can only concatenate " ++ own ++ " (not \"" ++ other ++ "\") to " ++ own
  | unordered sign left right =>
    "'" ++ sign ++ "' not supported between instances of '" ++ left ++ "' and '" ++ right ++ "'"
  | notShownAsNumber cls => "%d format: a real number is required, not " ++ cls
  | attributeName cls => "attribute name must be string, not '" ++ cls ++ "'"
  | schema e => e.message
  | nodeRange index size =>
    "node index " ++ index.text ++ " out of range [0, " ++ toString size ++ ")"
  | pick e => e.message?.getD ""
  | overflow | tooLarge => ""
  | notSubscriptable cls => "'" ++ cls ++ "' object is not subscriptable"
  | unsized cls => "object of type '" ++ cls ++ "' has no len()"
  | noRoot => "topology has no root (every node has a parent)"
  | lacking => ""
  | unknownName name => Text.quoted name
  | unknownKey shown => shown

end Fault

end GraphFold
