/-
GraphFold.ArrayTree — binary trees held in three index buffers.

Node `i` has the parent `parent[i]`, negative at a root, and the children
`left[i]` and `right[i]`, where a negative entry means no child. The child
buffers may cover only the leading nodes, the internal ones; every later node
is a leaf. Nothing ties parents to children, and the child entries may form
cycles: building checks ranges only.
-/
import GraphFold.Index.Buffer

namespace GraphFold

open Index (Buffer Numeral PickError)

/-- A binary tree in buffers. -/
structure ArrayTree where
  parent : Buffer
  left : Buffer
  right : Buffer
  deriving DecidableEq

/-- Why buffers do not make a tree. -/
inductive ArrayTreeError where
  /-- There are more child entries than nodes. -/
  | tooManyChildren
  /-- A parent entry is outside `[-1, size)`. -/
  | parentRange (size : Nat)
  /-- A left child entry is at least `size`. -/
  | leftRange (size : Nat)
  /-- A right child entry is at least `size`. -/
  | rightRange (size : Nat)
  deriving DecidableEq, Repr

/-- The report on an error. -/
def ArrayTreeError.message : ArrayTreeError → String
  | .tooManyChildren => "child buffers must not be longer than parent"
  | .parentRange size => s!"parent entries must lie in [-1, {size})"
  | .leftRange size => s!"left_child entries must be negative or < {size}"
  | .rightRange size => s!"right_child entries must be negative or < {size}"

namespace ArrayTree

/-- The number of nodes. -/
def size (t : ArrayTree) : Nat := t.parent.size

/-- The number of nodes that may have children. -/
def internalCount (t : ArrayTree) : Nat := t.left.size

/-- Checks the buffers, in the order of `ArrayTreeError`, and makes the tree. -/
def ofBuffers? (parent left right : Buffer) : Except ArrayTreeError ArrayTree :=
  let size := parent.size
  if size < left.size then
    .error .tooManyChildren
  else if parent.any fun p => p.toInt < -1 || size ≤ p.toInt then
    .error (.parentRange size)
  else if left.any fun c => size ≤ c.toInt then
    .error (.leftRange size)
  else if right.any fun c => size ≤ c.toInt then
    .error (.rightRange size)
  else
    .ok ⟨parent, left, right⟩

/-- The first node without a parent. -/
def root? (t : ArrayTree) : Option Nat := t.parent.findIdx? fun p => p.toInt < 0

/-- The children of a node, left before right. A negative index below the internal
ones counts from the end of the child buffers. -/
def childIndices (t : ArrayTree) (index : Numeral) : Except PickError (List Int) :=
  if t.internalCount ≤ index.floor then
    .ok []
  else do
    let left ← t.left.pick? index
    let right ← t.right.pick? index
    return [left, right].filter (0 ≤ ·)

end ArrayTree

end GraphFold
