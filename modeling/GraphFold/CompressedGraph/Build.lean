/-
GraphFold.CompressedGraph.Build — graphs from whatever is handed over.

As for trees, buffers may be handed over as they are, or be converted from the
parts of an object. Edges are pairs of integers.
-/
import GraphFold.ArrayTree.Build
import GraphFold.CompressedGraph

namespace GraphFold

open Index (Nested Scalar Given Numeral GivenNumeral ConversionError)

/-- Why no graph is made. -/
inductive GraphBuildError where
  /-- A part of the object is missing. -/
  | missing
  | conversion (e : ConversionError)
  /-- What is handed over are not index arrays of rank one. -/
  | notBuffers
  /-- The number of nodes or the edges are of a wrong type. -/
  | notEdges
  /-- A value of this class is given for a number of nodes that is counted up to. -/
  | notCount (cls : String)
  | graph (e : CompressedGraphError)
  deriving DecidableEq, Repr

namespace CompressedGraph

/-- The graph of two buffers that are handed over. -/
def ofGiven? (offsets targets : Given) : Except GraphBuildError CompressedGraph :=
  match offsets.buffer?, targets.buffer? with
  | some offsets, some targets => (ofBuffers? offsets targets).mapError .graph
  | _, _ => .error .notBuffers

/-- The graph of the parts of an object. -/
def ofParts? (offsets targets : Option (Nested Scalar)) :
    Except GraphBuildError CompressedGraph :=
  match offsets, targets with
  | some offsets, some targets => do
    let offsets ← (givenIndices? offsets).mapError .conversion
    let targets ← (givenIndices? targets).mapError .conversion
    ofGiven? offsets targets
  | _, _ => .error .missing

/-- The graph of edges, if the arguments are of the right types; `none` stands for edges that are
not pairs of integers. -/
def ofPairs? (capacity : Capacity) (size : GivenNumeral)
    (edges : Option (List (Numeral × Numeral))) : Except GraphBuildError CompressedGraph :=
  match size, edges with
  | .error _, _ | .ok (.real _), _ | _, none => .error .notEdges
  | .ok size, some edges =>
    if edges.any fun (a, b) => isReal a || isReal b then
      .error .notEdges
    else
      (ofEdges? capacity size (edges.map fun (a, b) => (a.toInt, b.toInt))).mapError .graph
where
  /-- Whether a number is no integer by its class. -/
  isReal : Numeral → Bool
    | .real _ => true
    | _ => false

/-- The graph in which each node below `size` leads to the next. -/
def ofChain? (capacity : Capacity) (size : GivenNumeral) :
    Except GraphBuildError CompressedGraph :=
  match size with
  | .error cls => .error (.notCount cls)
  | .ok (.real _) => .error (.notCount "float")
  | .ok n => (chain? capacity n.toInt).mapError .graph

end CompressedGraph

end GraphFold
