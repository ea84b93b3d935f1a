/-
GraphFold.CompressedGraph — directed graphs held in two index buffers.

The successors of node `i` are the targets from `offsets[i]` up to
`offsets[i + 1]`. There is one more offset than there are nodes. Cycles,
self-loops and repeated edges are allowed.

Differences of offsets are taken in 64-bit arithmetic, where they wrap around.
-/
import GraphFold.Index.Buffer

namespace GraphFold

open Index (Buffer Numeral PickError)

/-- A directed graph in buffers. -/
structure CompressedGraph where
  offsets : Buffer
  targets : Buffer
  deriving DecidableEq

/-- The most nodes of a graph that fit the memory. A buffer takes eight bytes for each of them, and
bytes are counted in 64 bits. -/
structure Capacity where
  nodes : Nat
  addressable : 8 * nodes < Index.powerOfTwo 64

/-- So the nodes are counted in less than 63 bits, and twice as many edges are as well. -/
theorem Capacity.two_mul_nodes_lt (capacity : Capacity) :
    2 * capacity.nodes < Index.powerOfTwo 63 := by
  have haddressable := capacity.addressable
  have hpower : Index.powerOfTwo 64 = 2 * Index.powerOfTwo 63 := by decide
  omega

theorem Capacity.nodes_lt (capacity : Capacity) : capacity.nodes < Index.powerOfTwo 63 := by
  have htwice := capacity.two_mul_nodes_lt
  omega

/-- Why buffers or edges do not make a graph. -/
inductive CompressedGraphError where
  /-- There is no offset at all. -/
  | noOffsets
  /-- The first offset is not 0, or the last one is not the number of targets. -/
  | ends
  /-- A difference of neighbouring offsets is negative. -/
  | decreasing
  /-- A target is not a node. -/
  | targetRange (size : Nat)
  /-- Edges are given for less than one node. -/
  | noNodes
  /-- A number does not fit 64 bits. -/
  | overflow
  /-- There are more nodes than fit the memory. -/
  | tooLarge
  /-- An endpoint is not a node; the number of nodes is shown as it was given. -/
  | endpointRange (size : Numeral)
  deriving DecidableEq, Repr

/-- The report on an error; there is none on what does not fit. -/
def CompressedGraphError.message? : CompressedGraphError → Option String
  | .noOffsets => some "offsets must contain at least one entry"
  | .ends => some "offsets must start at 0 and end at len(targets)"
  | .decreasing => some "offsets must be non-decreasing"
  | .targetRange size => some s!"targets must lie in [0, {size})"
  | .noNodes => some "num_nodes must be >= 1"
  | .overflow | .tooLarge => none
  | .endpointRange size => some ("edge endpoints must lie in [0, " ++ size.text ++ ")")

namespace CompressedGraph

/-- The number of nodes. -/
def size (g : CompressedGraph) : Nat := g.offsets.size - 1

/-- The number of edges. -/
def edgeCount (g : CompressedGraph) : Nat := g.targets.size

/-- Whether some offset minus the one before it is negative, in 64-bit arithmetic. -/
def decreases (offsets : Buffer) : Bool :=
  (offsets.toList.zip offsets.toList.tail).any fun (a, b) => b - a < 0

/-- Checks the buffers, in the order of `CompressedGraphError`, and makes the graph. -/
def ofBuffers? (offsets targets : Buffer) : Except CompressedGraphError CompressedGraph :=
  match offsets[0]?, offsets.back? with
  | some first, some last =>
    if first.toInt ≠ 0 ∨ last.toInt ≠ targets.size then
      .error .ends
    else if decreases offsets then
      .error .decreasing
    else if targets.any fun t => t.toInt < 0 || (offsets.size : Int) - 1 ≤ t.toInt then
      .error (.targetRange (offsets.size - 1))
    else
      .ok ⟨offsets, targets⟩
  | _, _ => .error .noOffsets

/-- The successors of a node, in order. Either offset may be counted from the end. -/
def successors (g : CompressedGraph) (index : Numeral) : Except PickError (List Int) := do
  let start ← g.offsets.pick? index
  let stop ← g.offsets.entry? (index.toInt + 1)
  return (Index.slice g.targets start stop).toList.map Int64.toInt

/-- How many edges leave each of the nodes below `size`. -/
def outDegrees (size : Nat) (edges : List (Int × Int)) : Array Nat :=
  edges.foldl (fun counts edge => counts.modify edge.1.toNat (· + 1)) (Array.replicate size 0)

/-- The running sums of a list, from 0: one more than there are entries. -/
def runningSums (xs : List Nat) : List Nat :=
  xs.scanl (· + ·) 0

/-- The graph with nodes `0, …, size - 1` and these edges; successors keep the order in
which their edges are listed. -/
def ofEdges? (capacity : Capacity) (size : Numeral) (edges : List (Int × Int)) :
    Except CompressedGraphError CompressedGraph :=
  let n := size.toInt
  let ends := edges.flatMap fun edge => [edge.1, edge.2]
  if n < 1 then
    .error .noNodes
  else if ends.any fun e => !Index.Dtype.index.holds e then
    .error .overflow
  else if ends.any fun e => e < 0 || n ≤ e then
    .error (.endpointRange size)
  else if Index.Dtype.index.holds n = false then
    .error .overflow
  else if capacity.nodes < n.toNat then
    .error .tooLarge
  else
    let sorted := edges.mergeSort fun a b => a.1 ≤ b.1
    let offsets := runningSums (outDegrees n.toNat edges).toList
    ofBuffers? (Buffer.ofInts (offsets.map Int.ofNat)) (Buffer.ofInts (sorted.map (·.2)))

/-- The buffers of the graph in which each node below `size` leads to the next: a position for each
node, the last one once more as the end, and the nodes but the first. Without nodes the end comes
before the start. -/
def chainBuffers (size : Int) : Buffer × Buffer :=
  let starts := (List.range size.toNat).map Int.ofNat
  (Buffer.ofInts (starts ++ [size - 1]), Buffer.ofInts (starts.drop 1))

/-- The graph in which each node below `size` leads to the next. -/
def chain? (capacity : Capacity) (size : Int) : Except CompressedGraphError CompressedGraph :=
  if Index.Dtype.index.holds size && Index.Dtype.index.holds (size - 1) then
    if capacity.nodes < size.toNat then
      .error .tooLarge
    else
      let (offsets, targets) := chainBuffers size
      ofBuffers? offsets targets
  else
    .error .overflow

end CompressedGraph

end GraphFold
