/-
GraphFold.SyntaxTree.Census — how often each class occurs among the nodes
reachable from a syntax node.

Every node is counted once, however many parents it has. There are two
counters. One raises the count of a class where it stands in the tally; the
other rebuilds the tally with one entry more, which takes the place of the old
one. Both keep the order of the first meetings.
-/
import GraphFold.Schema.Analysis

namespace GraphFold

/-- How often each class was met, in the order of the first meetings. -/
abbrev Tally : Type := OrderedMap String Nat

namespace Tally

/-- The count of a class; a class never met has none. -/
def count (t : Tally) (cls : String) : Nat := (t.find? cls).getD 0

/-- Raises the count of a class by one, in its place. -/
def raise (t : Tally) (cls : String) : Tally := t.insert cls (t.count cls + 1)

/-- Rebuilds the tally from its entries and one more, with the count raised. -/
def rebuild (t : Tally) (cls : String) : Tally :=
  .ofList (t.entries ++ [(cls, t.count cls + 1)])

/-- The pairs of class and count, the greatest count first, equal counts by name. -/
def ranked (t : Tally) : List (String × Nat) :=
  t.entries.mergeSort fun a b => b.2 < a.2 || (a.2 == b.2 && a.1 ≤ b.1)

end Tally

/-- Folds the class of every node into a tally. -/
def countClasses (next : Tally → String → Tally) : FoldOver Tally :=
  .ofFold (fun node tally => return next tally node.className) none

/-- Counts the classes of the nodes reachable from a node. -/
def Scene.tally (scene : Scene) (terms : Terms) (next : Tally → String → Tally)
    (listener : Option (Listener Value Heard)) (root : Value) : ValueOutcome Tally :=
  scene.reduceUnder terms.registry (scene.regime terms.policy) (countClasses next) listener
    terms.budget ⟨root, .plain .none, .empty⟩ false

end GraphFold
