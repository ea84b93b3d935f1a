/-
GraphFold.Index.Array — arrays of numbers, and their use as index buffers.

Data is given as nested rows of scalars. It becomes an array of an element
type when every row of one level has the same length, the levels are not too
many, and every entry fits the type. Integers of one bit are packed, and only
few of them fill the bytes that are expected of an array.

  §1 Nested data — `Nested.shape?`, `Nested.tryMap`.
  §2 Failures    — why data does not become an array.
  §3 Conversion  — `convert?`, `asIndex?`.
-/
import GraphFold.Index.Dtype

namespace GraphFold.Index

/-! ## §1 Nested data -/

/-- Data given as rows within rows. -/
inductive Nested (α : Type) where
  | leaf (a : α)
  | row (items : List (Nested α))
  deriving Repr

/-- A scalar as it is given. -/
inductive Scalar where
  /-- A number is missing. -/
  | absent
  | numeral (n : Numeral)
  /-- Undefined bits in the place of a floating point number. -/
  | undefined
  | text (s : String)
  /-- Something else, of this class. -/
  | stray (cls : String)

instance : Inhabited (Nested Scalar) := ⟨.row []⟩

namespace Nested

variable {α β : Type}

/-- The lengths of the rows, level by level; none if rows of one level differ. -/
def shape? : Nested α → Option (List Nat)
  | leaf _ => some []
  | row items =>
    match shapes? items with
    | none => none
    | some [] => some [0]
    | some (first :: rest) =>
      if rest.all (· == first) then some ((rest.length + 1) :: first) else none
where
  /-- The shapes of the rows, if each has one. -/
  shapes? : List (Nested α) → Option (List (List Nat))
    | [] => some []
    | item :: later =>
      match shape? item, shapes? later with
      | some s, some ss => some (s :: ss)
      | _, _ => none

/-- The lengths of the rows on the levels that are even: from the first level on, as long as all
entries of a level are rows of one length. -/
def evenLevels : Nested α → List Nat
  | leaf _ => []
  | row items => items.length :: shared items
where
  /-- The lengths on the levels that are even in all rows. -/
  shared : List (Nested α) → List Nat
    | [] => []
    | [item] => evenLevels item
    | item :: later => agreeing (evenLevels item) (shared later)
  /-- The beginning that two lists have in common. -/
  agreeing : List Nat → List Nat → List Nat
    | a :: as, b :: bs => if a = b then a :: agreeing as bs else []
    | _, _ => []

/-- Applies a function that may fail to every scalar, in order; the first failure is the result. -/
def tryMap {ε : Type} (f : α → Except ε β) : Nested α → Except ε (Nested β)
  | leaf a => (f a).map leaf
  | row items => (rows items).map row
where
  /-- Applies it to every row. -/
  rows : List (Nested α) → Except ε (List (Nested β))
    | [] => .ok []
    | item :: later => do
      let b ← tryMap f item
      return b :: (← rows later)

/-- All scalars, in order. -/
def leaves : Nested α → List α
  | leaf a => [a]
  | row items => rows items
where
  /-- The scalars of every row. -/
  rows : List (Nested α) → List α
    | [] => []
    | item :: later => leaves item ++ rows later

/-- The entries of data of rank one. -/
def vector? : Nested α → Option (List α)
  | leaf _ => none
  | row items => items.mapM fun
    | leaf a => some a
    | row _ => none

end Nested

/-! ## §2 Failures -/

/-- The greatest rank of an array. -/
def maxRank : Nat := 64

/-- Why data does not become an array. -/
inductive ConversionError where
  /-- A number is missing. -/
  | missing
  /-- Rows of one level differ in length; the levels before it have these lengths. -/
  | ragged (even : List Nat)
  /-- There are more levels than an array can have. -/
  | tooDeep
  /-- An entry cannot be stored. -/
  | store (e : Dtype.StoreError)
  /-- Entries of one bit, of a kind of this name, fill less bytes than are expected. -/
  | packed (kind : String) (shape : List Nat)
  /-- A text has no element type of its own. -/
  | untyped (s : String)
  deriving DecidableEq, Repr

namespace ConversionError

/-- The shape of an array as it is shown: its lengths in parentheses, a single one followed by a
comma. -/
def shapeText : List Nat → String
  | [size] => "(" ++ toString size ++ ",)"
  | sizes => "(" ++ ", ".intercalate (sizes.map toString) ++ ")"

/-- The number of entries of an array. -/
def entryCount (shape : List Nat) : Nat := shape.foldl (· * ·) 1

/-- The number of bytes that this many entries of one bit fill. -/
def packedSize (count : Nat) : Nat := (count + 7) / 8

/-- An array as it is laid out: the kind of its entries, its lengths, and its axes from the last to
the first, with a remark on them. -/
def layoutText (kind : String) (shape : List Nat) (remark : String) : String :=
  let axes := (List.range shape.length).reverse
  kind ++ "[" ++ ",".intercalate (shape.map toString) ++ "]\x7b" ++
    ",".intercalate (axes.map toString) ++ remark ++ "\x7d"

/-- The report on packed entries, but for the advice at its end. -/
def packedMessage (kind : String) (shape : List Nat) : String :=
  let count := entryCount shape
  "INVALID_ARGUMENT: E0102: RuntimeProgramInputMismatch:\n" ++
    "Executable(jit_convert_element_type) expected parameter 0 of size " ++ toString count ++ " (" ++
    layoutText "pred" shape "" ++ ") but got buffer with incompatible size " ++
    toString (packedSize count) ++ " (" ++ layoutText kind shape ":E(1)" ++ ")"

/-- The most characters that are shown of a text that stands for no integer, quotes and escapes
included. -/
def shownLength : Nat := 200

/-- The report on an entry that cannot be stored; numbers that do not fit are reported without
one. -/
def storeMessage? : Dtype.StoreError → Option String
  | .overflow => none
  | .undefined => some "cannot convert float NaN to integer"
  | .notNumber cls => some ("expected number, got " ++ cls)
  | .notInteger s .malformed =>
    some ("invalid literal for int() with base 10: " ++ ((Text.quoted s).take shownLength).toString)
  | .notInteger _ (.tooLong digits) =>
    some ("Exceeds the limit (" ++ toString Text.maxDigits ++
      " digits) for integer string conversion: value has " ++ toString digits ++
      " digits; use sys.set_int_max_str_digits() to increase the limit")
  | .notReal s => some ("could not convert string to float: " ++ Text.quoted s)
  | .notComplex s .underscore => some ("could not convert string to complex: " ++ Text.quoted s)
  | .notComplex _ .malformed => some "complex() arg is a malformed string"
  | .stray .integer cls =>
    some ("int() argument must be a string, a bytes-like object or a real number, not '" ++
      cls ++ "'")
  | .stray .real cls =>
    some ("float() argument must be a string or a real number, not '" ++ cls ++ "'")
  | .stray .complex cls => some ("must be real number, not " ++ cls)

/-- The report on data that does not become an array, if there is one. -/
def message? : ConversionError → Option String
  | missing => some "None is not a valid value for jnp.array"
  | ragged even =>
    some ("setting an array element with a sequence. The requested array has an inhomogeneous " ++
      "shape after " ++ toString even.length ++ " dimensions. The detected shape was " ++
      shapeText even ++ " + inhomogeneous part.")
  | tooDeep =>
    some ("setting an array element with a sequence. The requested array would exceed the " ++
      "maximum number of dimension of " ++ toString maxRank ++ ".")
  | store e => storeMessage? e
  | packed kind shape => some (packedMessage kind shape)
  | untyped s =>
    some ("Value '" ++ s ++ "' with dtype <U" ++ toString (max 1 s.length) ++
      " is not a valid JAX array type. Only arrays of numeric types are supported by JAX.")

end ConversionError

/-- The report on rows that differ in length: where they do, or that there are too many levels
before. -/
def ConversionError.ofUneven (even : List Nat) : ConversionError :=
  if maxRank ≤ even.length then .tooDeep else .ragged even

/-! ## §3 Conversion -/

/-- An array: element type, shape, and the entries, as integers, in their rows. -/
structure NumberArray where
  dtype : Dtype
  shape : List Nat
  entries : Nested Int

/-- Why an array of an element type does not fill the bytes that are expected of it, if it does
not. -/
def packingError? (dtype : Dtype) (shape : List Nat) : Option ConversionError :=
  let count := ConversionError.entryCount shape
  if ConversionError.packedSize count = count then none
  else
    match dtype with
    | .signed 1 => some (.packed "s1" shape)
    | .unsigned 1 => some (.packed "u1" shape)
    | _ => none

/-- Makes an array of an element type: all numbers present, then the shape and its rank, then
the entries, then the bytes that they fill. -/
def convert? (dtype : Dtype) (data : Nested Scalar) : Except ConversionError NumberArray := do
  let present ← data.tryMap fun
    | .absent => .error .missing
    | .numeral n => .ok (dtype.store? n)
    | .undefined => .ok dtype.storeUndefined?
    | .text s => .ok (dtype.storeText? s)
    | .stray cls => .ok (dtype.storeStray? cls)
  match present.shape? with
  | none => throw (.ofUneven present.evenLevels)
  | some shape =>
    if maxRank < shape.length then
      throw .tooDeep
    let entries ← present.tryMap fun entry => entry.mapError .store
    match packingError? dtype shape with
    | some e => throw e
    | none => return ⟨dtype, shape, entries⟩

/-- Makes an array of indices. -/
def asIndex? (data : Nested Scalar) : Except ConversionError NumberArray :=
  convert? Dtype.index data

end GraphFold.Index
