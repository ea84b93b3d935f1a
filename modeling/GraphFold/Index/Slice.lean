/-
GraphFold.Index.Slice — positions in a sequence, counted from either end.

A non-negative index counts from the front, a negative one from the back. A
single position has to exist; the ends of a slice are moved to the nearest end
of the sequence instead.
-/

namespace GraphFold.Index

/-- The position an index denotes in a sequence of this size, if there is one. -/
def position? (size : Nat) (index : Int) : Option Nat :=
  if 0 ≤ index then
    if index < size then some index.toNat else none
  else
    if -(size : Int) ≤ index then some (size + index).toNat else none

/-- Where an end of a slice falls in a sequence of this size. -/
def cut (size : Nat) (index : Int) : Nat :=
  if 0 ≤ index then min index.toNat size else (size + index).toNat

/-- The entries from one end up to, and without, the other. -/
def slice {α : Type} (xs : Array α) (start stop : Int) : Array α :=
  xs.extract (cut xs.size start) (cut xs.size stop)

/-- The entries before an end. -/
def upTo {α : Type} (xs : List α) (stop : Int) : List α := xs.take (cut xs.length stop)

/-- An index within the sequence, counted from the front, is its own position. -/
theorem position?_natCast {size k : Nat} (h : k < size) : position? size (k : Int) = some k := by
  unfold position?
  rw [if_pos (Int.natCast_nonneg k), if_pos (by omega)]
  simp

end GraphFold.Index
