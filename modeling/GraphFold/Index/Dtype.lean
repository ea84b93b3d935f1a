/-
GraphFold.Index.Dtype — the element types of arrays.

An element type says what becomes of a number that is stored. Integers of at
least 8 bits take what fits them, and drop what stands behind a point first.
Narrower integers wrap a whole number of 64 bits around, while a floating point
number has to lie in their range as it is. Floating point takes nearly
everything. A text is stored as the number that it can be read as.

  §1 Element types
  §2 Storing — `Dtype.store?`, `Dtype.storeText?`.
-/
import GraphFold.Index.Numeral
import GraphFold.Text.Quoted
import GraphFold.Text.Real

namespace GraphFold.Index

/-! ## §1 Element types -/

/-- The element type of an array. -/
inductive Dtype where
  | truth
  | signed (bits : Nat)
  | unsigned (bits : Nat)
  /-- A floating point format, by its name. -/
  | float (format : String)
  /-- Pairs of floating point numbers. -/
  | complex (bits : Nat)
  deriving DecidableEq, Repr

namespace Dtype

/-- The element type of indices. -/
def index : Dtype := .signed 64

/-- The formats that have less digits than the wide ones, or a range of their own. -/
def narrowFormats : List String :=
  ["float4_e2m1fn", "float8_e3m4", "float8_e4m3", "float8_e4m3b11fnuz", "float8_e4m3fn",
    "float8_e4m3fnuz", "float8_e5m2", "float8_e5m2fnuz", "float8_e8m0fnu", "bfloat16"]

/-- The formats of 16, 32 and 64 bits. -/
def wideFormats : List String := ["float16", "float32", "float64"]

/-- The element types there are. -/
def all : List Dtype :=
  truth :: [1, 2, 4, 8, 16, 32, 64].map signed ++ [1, 2, 4, 8, 16, 32, 64].map unsigned ++
    (narrowFormats ++ wideFormats).map float ++ [64, 128].map complex

/-- The name of an element type. -/
def name : Dtype → String
  | truth => "bool"
  | signed bits => "int" ++ toString bits
  | unsigned bits => "uint" ++ toString bits
  | float format => format
  | complex bits => "complex" ++ toString bits

/-! ## §2 Storing -/

/-- The least and the greatest integer, for integers of some bits. -/
def range? : Dtype → Option (Int × Int)
  | signed bits => some (-(powerOfTwo (bits - 1) : Int), powerOfTwo (bits - 1) - 1)
  | unsigned bits => some (0, powerOfTwo bits - 1)
  | _ => none

/-- Whether an integer can be stored as it is. Floating point takes what rounds to a finite
double. -/
def holds (d : Dtype) (i : Int) : Bool :=
  match d.range? with
  | some (low, high) => low ≤ i && i ≤ high
  | none => d == truth || i.natAbs < Binary.bound

/-- What a value is read as that is to be stored. -/
inductive Target where
  | integer
  | real
  | complex
  deriving DecidableEq, Repr

/-- Why something cannot be stored. -/
inductive StoreError where
  /-- It does not fit. -/
  | overflow
  /-- There is no such number. -/
  | undefined
  /-- It is of a class of which no numbers are taken: an integer that is too long, or a text. -/
  | notNumber (cls : String)
  /-- A text stands for no integer. -/
  | notInteger (s : String) (e : Text.IntegerError)
  /-- A text is no real numeral. -/
  | notReal (s : String)
  /-- A text is no complex numeral. -/
  | notComplex (s : String) (e : Text.ComplexError)
  /-- A value of this class cannot be read as what is stored. -/
  | stray (target : Target) (cls : String)
  deriving DecidableEq, Repr

/-- An integer of 64 bits wrapped around to fewer bits. -/
def wrap (d : Dtype) (i : Int) : Int :=
  match d with
  | signed bits => i.bmod (powerOfTwo bits)
  | unsigned bits => i % powerOfTwo bits
  | _ => i

/-- Whether a number lies in the range of an element type. -/
def spans (d : Dtype) (n : Numeral) : Bool :=
  match d.range? with
  | some (low, high) => low ≤ n.floor && (n.floor < high || (n.isWhole && n.floor == high))
  | none => true

/-- Whether an element type is of integers that are narrower than a byte. -/
def isNarrow : Dtype → Bool
  | signed bits | unsigned bits => bits < 8
  | _ => false

/-- What becomes of a number that is stored. -/
def store? (d : Dtype) (n : Numeral) : Except StoreError Int :=
  match d, n with
  | float _, .real _ | complex _, .real _ => .ok n.toInt
  | float format, n =>
    if narrowFormats.contains format then
      if index.holds n.toInt then .ok n.toInt else .error (.notNumber "int")
    else if d.holds n.toInt then .ok n.toInt else .error .overflow
  | d, .real x =>
    if d.isNarrow then
      if d.spans (.real x) then .ok x.truncate else .error .overflow
    else if d.holds x.truncate then .ok x.truncate else .error .overflow
  | d, n =>
    if d.isNarrow then
      if index.holds n.toInt then .ok (d.wrap n.toInt) else .error .overflow
    else if d.holds n.toInt then .ok n.toInt else .error .overflow

/-- What becomes of undefined bits that are stored. In a format they are kept, and they count as true;
the entry does not matter then. -/
def storeUndefined? : Dtype → Except StoreError Int
  | truth | float _ | complex _ => .ok 0
  | d => .error (if d.isNarrow then .overflow else .undefined)

/-- What becomes of a text that is stored. Formats and integers that are narrow take no texts, truth
values take any. Of real and complex numerals the number does not matter. -/
def storeText? (d : Dtype) (s : String) : Except StoreError Int :=
  match d with
  | truth => .ok 0
  | float format =>
    if narrowFormats.contains format then .error (.notNumber "str")
    else if Text.isReal s then .ok 0
    else .error (.notReal s)
  | complex _ =>
    match Text.complexError? s with
    | none => .ok 0
    | some e => .error (.notComplex s e)
  | d =>
    if d.isNarrow then
      .error (.notNumber "str")
    else
      match Text.integer? s with
      | .ok i => d.store? (.int i)
      | .error e => .error (.notInteger s e)

/-- What becomes of a value that is neither a number nor a text: only truth values take it. -/
def storeStray? (d : Dtype) (cls : String) : Except StoreError Int :=
  match d with
  | truth => .ok 0
  | float format =>
    .error (if narrowFormats.contains format then .notNumber cls else .stray .real cls)
  | complex _ => .error (.stray .complex cls)
  | d => .error (if d.isNarrow then .notNumber cls else .stray .integer cls)

end Dtype

end GraphFold.Index
