/-
GraphFold.State — the bookkeeping of one walk: the context handed to every
children lookup, the keys of the nodes met so far, and the ancestors of the
node at hand.

A node is told apart by its KEY, a value of an ordered type: two keys are the
same exactly when `compare` says so, which may be coarser than equality. The
three parts are independent, and each operation here changes one of them.

The seen set and the ancestors are persistent, so a state can be kept while
the walk goes on from it; recording a key costs a logarithm, pushing a node
costs one cell.
-/
import Std.Data.TreeSet.Basic

namespace GraphFold

/-- What a walk knows at one point: its context, the keys it has seen, and the
ancestors of the node at hand, nearest first. -/
structure State (N K S : Type) [Ord K] where
  /-- Opaque to the walk; children lookups read it. -/
  context : S
  /-- The keys of the nodes met so far in this run. -/
  seen : Std.TreeSet K
  /-- The nodes above the node at hand, nearest first. -/
  ancestors : List N

namespace State

variable {N K S : Type} [Ord K]

/-- The state in which nothing has been seen and the path is empty. -/
def new (context : S) : State N K S := ⟨context, ∅, []⟩

/-- Whether a key equal to this one has been recorded. -/
def isSeen (s : State N K S) (key : K) : Bool := s.seen.contains key

/-- Records a key. When an equal key is there already, that one stays. -/
def mark (s : State N K S) (key : K) : State N K S := { s with seen := s.seen.insert key }

/-- Puts a node at the end of the path. -/
def push (s : State N K S) (node : N) : State N K S := { s with ancestors := node :: s.ancestors }

/-- Replaces the ancestors, given nearest first. -/
def withAncestors (s : State N K S) (ancestors : List N) : State N K S :=
  { s with ancestors := ancestors }

/-- Replaces the path, given root first. -/
def withPath (s : State N K S) (path : List N) : State N K S :=
  { s with ancestors := path.reverse }

/-- Replaces the context. -/
def withContext (s : State N K S) (context : S) : State N K S := { s with context := context }

/-- The ancestors, root first. -/
def path (s : State N K S) : List N := s.ancestors.reverse

/-- The number of ancestors. -/
def depth (s : State N K S) : Nat := s.ancestors.length

/-- The nearest ancestor; the root of a walk has none. -/
def parent? (s : State N K S) : Option N := s.ancestors.head?

/-- The keys seen, in the order of their type. -/
def seenKeys (s : State N K S) : List K := s.seen.toList

/-- The number of keys seen. -/
def seenCount (s : State N K S) : Nat := s.seen.size

/-- Whether two states agree: the contexts under `sameContext`, the seen sets as
sets of keys, and the ancestors one by one under `sameNode`. -/
def same (sameContext : S → S → Bool) (sameNode : N → N → Bool) (a b : State N K S) : Bool :=
  sameContext a.context b.context
    && (a.seen.size == b.seen.size && a.seen.all b.seen.contains)
    && a.ancestors.length == b.ancestors.length
    && (a.ancestors.zip b.ancestors).all fun (x, y) => sameNode x y

end State

end GraphFold
