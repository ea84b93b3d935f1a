/-
GraphFold.Session.Reply — what the steps of a session come to.

Nodes, keys and contexts are reported by their labels. A walk reports, besides
its result or error, what was traced, heard and logged during it.
-/
import GraphFold.Session.Step

namespace GraphFold

/-- A state as it is reported. -/
structure StateReport where
  context : String
  /-- The labels of the keys seen, in code point order. -/
  seen : List String
  /-- The labels of the path, root first. -/
  path : List String
  depth : Nat
  parent : Option String

/-- The report on a state. -/
def StateReport.of (s : ValueState) : StateReport where
  context := s.context.label
  seen := (s.seenKeys.map Key.label).mergeSort fun a b => a ≤ b
  path := pathLabels s
  depth := s.depth
  parent := s.parent?.map Value.label

/-- An answer of an evaluator as it is reported. -/
inductive AnswerReport where
  | carrying (carrier : Carrier) (value : Folded) (state : StateReport)
  | fail (reason : Value)

/-- A policy as it is reported. -/
structure PolicyReport where
  /-- The limit, or `none`. -/
  maxDepth : Value
  checked : Value
  description : Value

/-- The report on a policy. -/
def PolicyReport.of (p : Policy) : PolicyReport where
  maxDepth := p.maxDepth.elim .none .ofNumeral
  checked := p.checked
  description := p.description

/-- What a step comes to if it succeeds. -/
inductive Reply where
  | nothing
  | flag (b : Bool)
  | flags (bs : List Bool)
  | text (s : String)
  | texts (ss : List String)
  | number (n : Nat)
  | numbers (is : List Int)
  | value (v : Folded)
  | state (s : StateReport)
  | policy (p : PolicyReport)
  | records (rs : List LogRecord)
  /-- The name, label and labels of the fields of each type. -/
  | types (rows : List (String × String × List String))
  | tally (counts : List (String × Nat))
  | tree (t : ArrayTree)
  | graph (g : CompressedGraph)
  /-- The index of a root and the number of nodes. -/
  | root (index : Nat) (size : Nat)
  | array (a : Index.NumberArray)
  | answer (a : AnswerReport) (trace : List TraceEntry)
  | reduction (value : Folded) (evaluations visited : Nat) (state : Option StateReport)

/-- What was observed during a walk. The events are given if there was a listener, the
trace if tracing was on. -/
structure Observed where
  trace : Option (List TraceEntry)
  events : Option (List (Event Value))
  records : List LogRecord

/-- What a step comes to, and for a walk what was observed. -/
structure StepReport where
  result : Except ErrorReport Reply
  observed : Option Observed

end GraphFold
