/-
GraphFold.Text.Integer — reading integers.

An integer may stand between blanks and have a sign. Its digits are decimal
digits of any script, and two digits may be kept apart by one underscore. It
has at most 4300 digits; that is found out before what follows the digits is
looked at.
-/

namespace GraphFold.Text

/-- The zeros of the scripts that have decimal digits, by Unicode 14.0; the other nine digits
follow each of them. -/
def zeros : List Nat := [
  48, 1632, 1776, 1984, 2406, 2534, 2662, 2790, 2918, 3046, 3174, 3302, 3430, 3558, 3664, 3792,
  3872, 4160, 4240, 6112, 6160, 6470, 6608, 6784, 6800, 6992, 7088, 7232, 7248, 42528, 43216,
  43264, 43472, 43504, 43600, 44016, 65296, 66720, 68912, 69734, 69872, 69942, 70096, 70384,
  70736, 70864, 71248, 71360, 71472, 71904, 72016, 72784, 73040, 73120, 92768, 92864, 93008,
  120782, 120792, 120802, 120812, 120822, 123200, 123632, 125264, 130032
]

/-- Whether a character is a blank around a number: one that Unicode 14.0 counts as white
space, the four separators below the plain space left out. -/
def isBlank (c : Char) : Bool :=
  let n := c.toNat
  (9 ≤ n && n ≤ 13) || n == 32 || n == 133 || n == 160 || n == 5760
    || (8192 ≤ n && n ≤ 8202) || n == 8232 || n == 8233 || n == 8239 || n == 8287 || n == 12288

/-- The value of a decimal digit. -/
def digit? (c : Char) : Option Nat :=
  (zeros.find? fun first => first ≤ c.toNat && c.toNat < first + 10).map (c.toNat - ·)

/-- Whether a character may stand in a numeral: a digit or an underscore. -/
def isNumeralChar (c : Char) : Bool := c == '_' || (digit? c).isSome

/-- Whether every underscore of a numeral stands between two digits; whether a digit stands before
it is told. -/
def separates (afterDigit : Bool) : List Char → Bool
  | [] => true
  | ['_'] => false
  | '_' :: later => afterDigit && separates false later
  | _ :: later => separates true later

/-- The most digits that are read. -/
def maxDigits : Nat := 4300

/-- The number with these decimal digits. -/
def ofDigits (ds : List Nat) : Nat := ds.foldl (fun n d => 10 * n + d) 0

/-- Why a text is not read as an integer. -/
inductive IntegerError where
  | malformed
  /-- It has more digits than are read. -/
  | tooLong (digits : Nat)
  deriving DecidableEq, Repr

/-- What is left after a sign, if there is one. -/
def afterSign : List Char → List Char
  | '+' :: rest | '-' :: rest => rest
  | cs => cs

/-- The natural number at the front of a text without a sign. Only blanks may follow its numeral,
which is found to be too long before that. -/
def natural? (cs : List Char) : Except IntegerError Nat :=
  let numeral := cs.takeWhile isNumeralChar
  let ds := numeral.filterMap digit?
  if !separates false numeral then .error .malformed
  else if maxDigits < ds.length then .error (.tooLong ds.length)
  else if ds.isEmpty || !(cs.drop numeral.length).all isBlank then .error .malformed
  else .ok (ofDigits ds)

/-- The integer a text stands for. -/
def integer? (s : String) : Except IntegerError Int :=
  let cs := s.toList.dropWhile isBlank
  (natural? (afterSign cs)).map fun n => if cs.head? = some '-' then -(n : Int) else n

end GraphFold.Text
