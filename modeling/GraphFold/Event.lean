/-
GraphFold.Event — what a walk reports about the nodes it arrives at.

Every arrival gives rise to at most one event. A listener hears the events in
order; it has a memory of its own, apart from the host's, and it may raise.
-/

namespace GraphFold

/-- How the walk handled a node. -/
inductive EventKind where
  /-- Evaluated; its children come next. -/
  | descend
  /-- Evaluated; its children are left out. -/
  | prune
  /-- Its key had been seen before. -/
  | skip
  /-- The walk ended here. -/
  | fail
  deriving DecidableEq, Repr

/-- The word for a kind of event in reports. -/
def EventKind.word : EventKind → String
  | .descend => "continue"
  | .prune => "prune"
  | .skip => "skip"
  | .fail => "fail"

/-- One report: the kind, the number of ancestors of the node, the node, and the
number of evaluations made by then. -/
structure Event (N : Type) where
  kind : EventKind
  depth : Nat
  node : N
  evaluations : Nat
  deriving Repr

/-- Hears an event, over a memory `L`; the answer is whether it raised. -/
abbrev Listener (N L : Type) : Type := Event N → L → Bool × L

end GraphFold
