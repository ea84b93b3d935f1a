/-
GraphFold.Session.Step — the steps of a session.

A step names the things it works on and describes its values; what it makes
goes by a name. Steps are data: they are carried out one after the other, and
one that fails leaves the session as it was.
-/
import GraphFold.CompressedGraph.Build
import GraphFold.Scene.Reduction

namespace GraphFold

open Index (Numeral GivenNumeral GivenIndex Nested Scalar)

/-- How a policy is described. -/
inductive PolicyDescription where
  /-- None at all. -/
  | absent
  | fields (maxDepth : Option GivenNumeral) (checked description : Value)
  /-- A value that is not a policy. -/
  | stray (v : Description)

/-- What stands for a listener. -/
inductive ListenerDescription where
  | absent
  | script (s : ListenerScript)
  /-- A value that is not a function. -/
  | stray (v : Description)

/-- An answer of an evaluator. The state of one that carries any goes by a name of the session. -/
inductive AnswerDescription where
  | carrying (carrier : Carrier) (value : Description) (state : String)
  | fail (reason : Description)

/-- What a class is to be registered under. -/
inductive RegistrationKey where
  | tagged (tag : String)
  /-- A value that is not a class. -/
  | stray (v : Description)

/-- What is handed over as a buffer. -/
inductive BufferDescription where
  /-- An array of an element type that is given by its name, or of none in particular. -/
  | array (dtype : Value) (data : Nested Scalar)
  /-- A value that is not an array. -/
  | plain

/-- Where the buffers of a tree come from. -/
inductive TreeSource where
  /-- They are handed over as they are. -/
  | buffers (parent left right : BufferDescription)
  /-- They are converted from the parts of an object. -/
  | parts (p : TreeParts)
  /-- The same, and the tree has to have a root. -/
  | rooted (p : TreeParts)

/-- Where a graph comes from. Edges of a wrong type are `none`. -/
inductive GraphSource where
  | edges (size : GivenNumeral) (edges : Option (List (Numeral × Numeral)))
  | buffers (offsets targets : BufferDescription)
  /-- The buffers are converted; either may be missing. -/
  | parts (offsets targets : Option (Nested Scalar))
  | chain (size : GivenNumeral)

/-- Under which state children are looked up. -/
inductive Under where
  /-- Under whatever goes by this name. -/
  | named (name : String)
  | fresh (c : ContextDescription)

/-- Where a schema is expected. -/
inductive SchemaDescription where
  | named (name : String)
  | stray (v : Description)

/-- What a walk of a session is made of. -/
structure WalkDescription where
  root : Description
  context : ContextDescription
  init : Description
  evaluator : Script
  policy : PolicyDescription
  listener : ListenerDescription
  tracing : Bool

/-- A log record to be written of an event. -/
structure LogRequest where
  /-- What stands for the kind of the event. -/
  kind : Value
  depth : GivenNumeral
  evaluations : GivenNumeral
  node : Description
  level : GivenNumeral
  /-- The name of a logger; without one the logger of events is meant. -/
  logger : Value
  threshold : Threshold

/-- One step. The last argument of those that make something is its name. -/
inductive Step where
  | newState (context : ContextDescription) (name : String)
  | mark (state : String) (node : Description) (name : String)
  | push (state : String) (node : Description) (name : String)
  | withPath (state : String) (nodes : List Description) (name : String)
  | withContext (state : String) (context : ContextDescription) (name : String)
  | withAncestors (state other : String) (name : String)
  /-- Reports on a state, tree, graph or schema. -/
  | dump (name : String)
  | isSeen (state : String) (node : Description)
  /-- The same, asked of whatever goes by a name. -/
  | contains (name : String) (node : Description)
  | sameThings (a b : String)
  | visited (state : String)
  | identity (node : Description)
  | sameNodes (a b : Description)
  | exactForm (node : Description)
  | isTraversable (node : Description)
  | children (node : Description) (under : Under)
  | ownChildren (node : Description) (context : ContextDescription)
  | syntaxChildren (node : Description)
  | register (key : RegistrationKey) (adapter : Option Adapter) (overwrite : Bool)
  | unregister (key : RegistrationKey)
  | registered
  | policy (p : PolicyDescription)
  | policyInForce (p : PolicyDescription)
  | setDefault (p : PolicyDescription)
  | sameAnswers (a b : AnswerDescription)
  | logEvent (request : LogRequest)
  | evaluate (evaluator : Script) (state : String) (node init : Description)
  /-- Without a list of scalar types the standard ones are taken. -/
  | defineSchema (objects : List (String × List (String × String)))
      (scalars : Option (List String)) (name : String)
  | collectTypes (types : List (String × Description)) (name : String)
  | lookupType (schema : String) (type : Value)
  | resolveType (context : ContextDescription) (type : Value)
  /-- The root is `none` if it is not a text. -/
  | reachable (schema : SchemaDescription) (root : Option String)
  | recursive (schema : SchemaDescription) (root : Option String)
  | counts (node : Description)
  /-- A source of blanks and comments; `none` if it is not a text. -/
  | parse (source : Option String)
  | tree (source : TreeSource) (name : String)
  | treeRoot (p : TreeParts)
  | graph (source : GraphSource) (name : String)
  | node (owner : String) (index : GivenNumeral)
  | rootOf (tree : String)
  | childIndices (tree : String) (index : GivenIndex)
  | successors (graph : String) (index : GivenIndex)
  | asIndex (x : Nested Scalar)
  | reduce (walk : WalkDescription)
  /-- The same, with a report on the final state if `withState` holds. -/
  | reduceFully (walk : WalkDescription) (withState : Bool)

end GraphFold
