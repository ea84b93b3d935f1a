/-
GraphFold.Index.Buffer — index buffers, and what is picked from them.

An index buffer holds the entries of an array of 64-bit signed integers of rank
one; any signed element type of more than one bit will do, since widening keeps
the entries. An integer picks one entry, and may count from the end. Truth
values, lists and nothing at all pick an array, which is no entry; of them it
is only told whether they pick anything.

  §1 Buffers
  §2 Picking one entry — `Buffer.pick?`.
  §3 Picking many      — `Buffer.listError`.
  §4 Given buffers     — `Given.buffer?`.
-/
import GraphFold.Index.Array
import GraphFold.Index.Slice

namespace GraphFold.Index

/-! ## §1 Buffers -/

/-- A buffer: the entries of an index array of rank one. -/
abbrev Buffer : Type := Array Int64

/-- The entries of a buffer as integers. -/
def Buffer.toInts (b : Buffer) : List Int := b.toList.map Int64.toInt

/-- The buffer with these entries, each taken modulo 2^64. -/
def Buffer.ofInts (xs : List Int) : Buffer := (xs.map Int64.ofInt).toArray

/-! ## §2 Picking one entry -/

/-- Why an index picks no entry of a buffer. -/
inductive PickError where
  /-- A buffer of this size has no such position. -/
  | missing (index : Int) (size : Nat)
  /-- The index fits 64 bits only without a sign. -/
  | overflow
  /-- What is given is not taken for an index at all. -/
  | notIndex
  /-- An array is picked, which is not one entry. -/
  | notSingle
  /-- A mask has another length than the buffer. -/
  | maskLength (length size : Nat)
  /-- A mask of several levels counts as this many indices. -/
  | tooMany (count : Nat)
  /-- A list of indices is not even. -/
  | uneven (e : ConversionError)
  deriving DecidableEq, Repr

/-- The report on an index that picks no entry; there is none on one that does not fit. -/
def PickError.message? : PickError → Option String
  | missing index size =>
    some ("index " ++ toString index ++ " is out of bounds for axis 0 with size " ++ toString size)
  | overflow => none
  | notIndex =>
    some ("only integers, slices (`:`), ellipsis (`...`), numpy.newaxis (`None`) and integer or " ++
      "boolean arrays are valid indices")
  | notSingle => some "only 0-dimensional arrays can be converted to Python scalars"
  | maskLength length size =>
    some ("boolean index did not match indexed array along axis 0; size of axis is " ++
      toString size ++ " but size of corresponding boolean axis is " ++ toString length)
  | tooMany count =>
    some ("too many indices for array: array is 1-dimensional, but " ++ toString count ++
      " were indexed")
  | uneven e => e.message?

/-- Why a buffer has no entry at this integer, which is not one of its positions. -/
def Buffer.absence (b : Buffer) (index : Int) : PickError :=
  if Dtype.index.holds index then
    .missing index b.size
  else if (Dtype.unsigned 64).holds index then
    .overflow
  else
    .notIndex

/-- The entry at an index that may count from the end. -/
def Buffer.entry? (b : Buffer) (index : Int) : Except PickError Int :=
  match position? b.size index with
  | some k => .ok (b[k]?.getD 0).toInt
  | none => .error (b.absence index)

/-- The entry a number picks. A truth value is no position: it picks the buffer as a whole, or
nothing of it, and neither is an entry, even if there is only one. A floating point number is not
taken for an index at all. -/
def Buffer.pick? (b : Buffer) : Numeral → Except PickError Int
  | .int index => b.entry? index
  | .truth _ => .error .notSingle
  | .real _ => .error .notIndex

/-! ## §3 Picking many -/

/-- What is given for an index. -/
inductive GivenIndex where
  | number (n : Numeral)
  | list (items : List (Nested Scalar))
  /-- Something else, of this class. -/
  | stray (cls : String)

/-- The class of what is given for an index. -/
def GivenIndex.className : GivenIndex → String
  | number n => n.className
  | list _ => "list"
  | stray cls => cls

/-- The integer a scalar stands for in a list of indices, if it is one. -/
def Scalar.int? : Scalar → Option Int
  | .numeral (.int i) => some i
  | .numeral (.truth b) => some (if b then 1 else 0)
  | _ => none

/-- Whether a scalar is a truth value. -/
def Scalar.isTruth : Scalar → Bool
  | .numeral (.truth _) => true
  | _ => false

/-- Why several integers pick no entry: the first that is no position of the buffer, or that they
are several. -/
def Buffer.manyError (b : Buffer) (indices : List Int) : PickError :=
  match indices.find? fun i => (position? b.size i).isNone with
  | some i => .missing i b.size
  | none => .notSingle

/-- Why a list of scalars picks no entry. The integers have to fit 64 bits, all with a sign, or all
without one; those wrap around. -/
def Buffer.scalarsError (b : Buffer) (scalars : List Scalar) : PickError :=
  let own := scalars.filter fun s => !s.isTruth
  match scalars.mapM Scalar.int?, own.mapM Scalar.int? with
  | some all, some own =>
    if own.all Dtype.index.holds then
      b.manyError all
    else if own.all fun i => (Dtype.unsigned 64).holds i && !Dtype.index.holds i then
      b.manyError (all.map fun i => (Int64.ofInt i).toInt)
    else
      .notIndex
  | _, _ => .notIndex

/-- Why a list of indices picks no entry. Truth values alone are a mask, which needs the length of the
buffer. -/
def Buffer.listError (b : Buffer) (items : List (Nested Scalar)) : PickError :=
  let data := Nested.row items
  match data.shape? with
  | none => .uneven (.ofUneven data.evenLevels)
  | some shape =>
    let scalars := data.leaves
    if maxRank < shape.length then
      .uneven .tooDeep
    else if scalars.isEmpty then
      .notSingle
    else if scalars.all Scalar.isTruth then
      match shape with
      | [length] => if length = b.size then .notSingle else .maskLength length b.size
      | levels => .tooMany levels.length
    else
      b.scalarsError scalars

/-- Why a value of a class that is neither of numbers nor of lists picks no entry. Nothing at all
picks the buffer as a row; values of other classes are not taken for indices. -/
def PickError.ofClass (cls : String) : PickError :=
  if cls = "NoneType" then .notSingle else .notIndex

/-! ## §4 Given buffers -/

/-- What is handed over where a buffer is expected. -/
inductive Given where
  | array (a : NumberArray)
  /-- Some value that is not an array. -/
  | plain

/-- The buffer that is given: an array of rank one of a signed element type of more than one bit. -/
def Given.buffer? : Given → Option Buffer
  | .plain => none
  | .array a =>
    match a.dtype with
    | .signed bits => if bits = 1 then none else a.entries.vector?.map Buffer.ofInts
    | _ => none

end GraphFold.Index
