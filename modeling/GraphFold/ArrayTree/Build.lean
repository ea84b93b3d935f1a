/-
GraphFold.ArrayTree.Build — trees from whatever is handed over.

Buffers may be handed over as they are: they have to be index arrays of rank
one, the child buffers of one length. Or they are converted from the parts of
an object, each to an array of indices first.
-/
import GraphFold.ArrayTree

namespace GraphFold

open Index (Nested Scalar Given Buffer ConversionError)

/-- Why no tree is made. -/
inductive TreeBuildError where
  /-- Parts are missing, in the order parent, left, right. -/
  | missing (parts : List String)
  | conversion (e : ConversionError)
  /-- What is handed over are not index arrays of rank one and fitting lengths. -/
  | notBuffers
  | tree (e : ArrayTreeError)
  deriving DecidableEq, Repr

/-- The parts of an object that stands for a tree; any may be missing. -/
structure TreeParts where
  parent : Option (Nested Scalar)
  left : Option (Nested Scalar)
  right : Option (Nested Scalar)

/-- The names of the parts that are missing. -/
def TreeParts.missing (p : TreeParts) : List String :=
  [("parent", p.parent), ("left_child", p.left), ("right_child", p.right)].filterMap
    fun (name, part) => if part.isNone then some name else none

/-- Converts data to an array of indices. -/
def givenIndices? (data : Nested Scalar) : Except ConversionError Given :=
  (Index.asIndex? data).map .array

namespace ArrayTree

/-- The tree of three buffers that are handed over. -/
def ofGiven? (parent left right : Given) : Except TreeBuildError ArrayTree :=
  match parent.buffer?, left.buffer?, right.buffer? with
  | some parent, some left, some right =>
    if left.size = right.size then
      (ofBuffers? parent left right).mapError .tree
    else
      .error .notBuffers
  | _, _, _ => .error .notBuffers

/-- The tree of the parts of an object. -/
def ofParts? (p : TreeParts) : Except TreeBuildError ArrayTree :=
  match p.parent, p.left, p.right with
  | some parent, some left, some right => do
    let parent ← (givenIndices? parent).mapError .conversion
    let left ← (givenIndices? left).mapError .conversion
    let right ← (givenIndices? right).mapError .conversion
    ofGiven? parent left right
  | _, _, _ => .error (.missing p.missing)

end ArrayTree

end GraphFold
