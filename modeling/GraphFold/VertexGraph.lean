/-
GraphFold.VertexGraph — graphs between vertices that are known by name.

Each named vertex has a list of neighbours, in order. A vertex that the graph
does not name has none.
-/
import GraphFold.OrderedMap
import Std.Data.String.ToNat

namespace GraphFold

/-- A graph between named vertices. -/
inductive VertexGraph where
  | table (rows : OrderedMap String (List String))
  /-- The vertices `0, …, length - 1`, each followed by the next number. -/
  | chain (length : Nat)

namespace VertexGraph

/-- The number a vertex of a chain is named by, in its shortest decimal form. -/
def number? (name : String) : Option Nat :=
  name.toNat?.filter fun i => toString i = name

/-- The neighbours of a vertex, in order. -/
def neighbours : VertexGraph → String → List String
  | table rows, name => (rows.find? name).getD []
  | chain length, name =>
    match number? name with
    | some i => if i < length then [toString (i + 1)] else []
    | none => []

/-- The rows of a graph. -/
def rows : VertexGraph → OrderedMap String (List String)
  | table rows => rows
  | chain length =>
    ⟨(List.range length).map fun i => (toString i, [toString (i + 1)]), by
      rw [List.map_map]
      exact (List.pairwise_map.2 (List.nodup_range.imp fun hne h => hne (Nat.repr_injective h)))⟩

/-- Whether two graphs name the same vertices with the same neighbours. -/
def same (a b : VertexGraph) : Bool := a.rows.same (fun x y => x == y) b.rows

end VertexGraph

end GraphFold
