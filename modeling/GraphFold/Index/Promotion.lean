/-
GraphFold.Index.Promotion — the element type that numbers of several types
have in common.

The KINDS of numbers are the element types, and three kinds of numbers that
are given without a type: integers, reals and complex numbers. A kind has
NEXT ones, to which its numbers can be taken over. What several kinds have in
common is the least kind that can be reached from all of them; kinds from
which nothing further is reached go together with nothing above them.

  §1 Kinds
  §2 Joins — `NumberKind.join?`.
-/
import GraphFold.Index.Dtype

namespace GraphFold.Index

/-! ## §1 Kinds -/

/-- A kind of numbers. -/
inductive NumberKind where
  | typed (d : Dtype)
  /-- Integers without a type. -/
  | anyInteger
  /-- Reals without a type. -/
  | anyReal
  /-- Complex numbers without a type. -/
  | anyComplex
  deriving DecidableEq, Repr

namespace NumberKind

/-- The kind of a number that is given without a type. Truth values have a type. -/
def ofNumeral : Numeral → NumberKind
  | .truth _ => typed .truth
  | .int _ => anyInteger
  | .real _ => anyReal

/-- The element type of the numbers of a kind. -/
def dtype : NumberKind → Dtype
  | typed d => d
  | anyInteger => .index
  | anyReal => .float "float64"
  | anyComplex => .complex 128

/-- The kinds next to a kind. -/
def next : NumberKind → List NumberKind
  | typed .truth => [anyInteger]
  | anyInteger => [1, 2, 4, 8].flatMap fun bits => [typed (.unsigned bits), typed (.signed bits)]
  | typed (.unsigned 8) => [typed (.signed 16), typed (.unsigned 16)]
  | typed (.unsigned 16) => [typed (.signed 32), typed (.unsigned 32)]
  | typed (.unsigned 32) => [typed (.signed 64), typed (.unsigned 64)]
  | typed (.unsigned 64) | typed (.signed 64) => [anyReal]
  | typed (.signed 8) => [typed (.signed 16)]
  | typed (.signed 16) => [typed (.signed 32)]
  | typed (.signed 32) => [typed (.signed 64)]
  | anyReal =>
    (Dtype.narrowFormats ++ ["float16"]).map (fun format => typed (.float format)) ++ [anyComplex]
  | typed (.float "bfloat16") | typed (.float "float16") => [typed (.float "float32")]
  | typed (.float "float32") => [typed (.float "float64"), typed (.complex 64)]
  | typed (.float "float64") => [typed (.complex 128)]
  | anyComplex => [typed (.complex 64)]
  | typed (.complex 64) => [typed (.complex 128)]
  | typed _ => []

/-! ## §2 Joins -/

/-- The most steps from a kind to another one. -/
def maxSteps : Nat := 16

/-- Some kinds, and those that can be reached from them in some steps. -/
def reached : Nat → List NumberKind → List NumberKind
  | 0, ks => ks
  | steps + 1, ks => reached steps (ks ++ ks.flatMap next).eraseDups

/-- A kind, and those that can be reached from it. -/
def above (k : NumberKind) : List NumberKind := reached maxSteps [k]

/-- The least kind above some kinds, if there is one: the one that lies below all the others above
them. -/
def join? : List NumberKind → Option NumberKind
  | [] => none
  | first :: later =>
    let common := first.above.filter fun k => later.all fun other => other.above.contains k
    common.find? fun k => common.all k.above.contains

end NumberKind

/-- The element type that numbers of some kinds have in common, if there is one. Without any numbers
it is the one of reals. -/
def Dtype.common? (kinds : List NumberKind) : Option Dtype :=
  if kinds.isEmpty then some NumberKind.anyReal.dtype
  else (NumberKind.join? kinds).map NumberKind.dtype

end GraphFold.Index
