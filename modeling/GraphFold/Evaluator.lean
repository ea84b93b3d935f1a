/-
GraphFold.Evaluator — what an evaluator answers about a node, and two ways of
building evaluators.

An evaluator is called once per node that is newly reached, with the state of
the walk and the value folded so far. It answers with one of three
instructions. An answer may also be malformed: a stray value in place of an
instruction, or in place of the state of one. Such answers are part of the
type, since a walk has to refuse them at a definite point.

  §1 Answers     — `Answer` and its two malformed forms.
  §2 Evaluators  — `Evaluator.ofFold` lifts a step function, `Evaluator.guard`
                   puts a check in front of an evaluator.
-/
import GraphFold.Action
import GraphFold.State

namespace GraphFold

/-! ## §1 Answers -/

/-- What an evaluator answers. `V` is the type of reasons and of stray values. -/
inductive Answer (N K S A V : Type) [Ord K] where
  /-- The node contributes `value`, and its children are folded next, from `state`. -/
  | proceed (value : A) (state : Except V (State N K S))
  /-- The node contributes `value`, and its children are left out. -/
  | prune (value : A) (state : Except V (State N K S))
  /-- The whole walk is given up. -/
  | fail (reason : V)
  /-- Not an instruction at all. -/
  | stray (given : V)

/-- Which of the two instructions that carry a state. -/
inductive Carrier where
  | proceed
  | prune
  deriving DecidableEq, Repr

/-! ## §2 Evaluators -/

/-- Asked about a node under a state and the value folded so far. -/
abbrev Evaluator (N K S A V E W : Type) [Ord K] : Type :=
  N → State N K S → A → Action W E (Answer N K S A V)

namespace Evaluator

variable {N K S A V E W : Type} [Ord K]

/-- Folds every node with `step`. Where `prune` is given and holds, the node still
contributes but its children are left out. The step comes first. -/
def ofFold (step : N → A → Action W E A)
    (prune : Option (N → State N K S → Action W E Bool)) : Evaluator N K S A V E W :=
  fun node state value => do
    let folded ← step node value
    match prune with
    | none => return .proceed folded (.ok state)
    | some cut =>
      if ← cut node state then
        return .prune folded (.ok state)
      else
        return .proceed folded (.ok state)

/-- Fails at the nodes for which `check` has a reason, and leaves the others to `inner`. -/
def guard (inner : Evaluator N K S A V E W)
    (check : N → State N K S → Action W E (Option V)) : Evaluator N K S A V E W :=
  fun node state value => do
    match ← check node state with
    | some reason => return .fail reason
    | none => inner node state value

end Evaluator

end GraphFold
