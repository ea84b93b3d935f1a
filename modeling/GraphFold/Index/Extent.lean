/-
GraphFold.Index.Extent — the extent of a part of a record, written before its
name.

An extent is a number, or a row of numbers, one for each axis. It is written
in decimal digits, with commas between and maybe after the numbers, blanks
anywhere, and maybe parentheses around it all. A number alone is no row, not
even in parentheses; a comma after it makes it one, and so do parentheses with
nothing in them.

  §1 Extents
  §2 Flaws   — what is wrong with the way an extent is written.
  §3 Reading — `Extent.read?`.
-/
import GraphFold.Text.Integer

namespace GraphFold.Index

/-! ## §1 Extents -/

/-- The extent of a part. -/
inductive Extent where
  | count (n : Nat)
  /-- Numbers for several axes, or for one or none. -/
  | axes (ns : List Nat)
  deriving DecidableEq, Repr

/-! ## §2 Flaws -/

/-- What is wrong with an extent. -/
inductive ExtentFlaw where
  /-- There is nothing but blanks. -/
  | blank
  /-- A comma or a number stands where it cannot. -/
  | misplaced
  /-- In parentheses, a number follows another one. -/
  | noComma
  /-- A number that is not zero starts with a zero. -/
  | leadingZero
  /-- A number has more digits than are read. -/
  | tooLong (digits : Nat)
  | neverClosed
  | neverOpened
  deriving DecidableEq, Repr

/-- The place at which an extent is found to be wrong. -/
def ExtentFlaw.place : ExtentFlaw → String
  | blank => " (<unknown>, line 0)"
  | _ => " (<unknown>, line 1)"

/-- What is told about a flaw. -/
def ExtentFlaw.remark : ExtentFlaw → String
  | blank | misplaced => "invalid syntax"
  | noComma => "invalid syntax. Perhaps you forgot a comma?"
  | leadingZero =>
    "leading zeros in decimal integer literals are not permitted; use an 0o prefix for octal integers"
  | tooLong digits =>
    "Exceeds the limit (" ++ toString Text.maxDigits ++
      " digits) for integer string conversion: value has " ++ toString digits ++
      " digits; use sys.set_int_max_str_digits() to increase the limit - Consider hexadecimal " ++
      "for huge integer literals to avoid decimal conversion limits."
  | neverClosed => "'(' was never closed"
  | neverOpened => "unmatched ')'"

/-- The report on a flaw. -/
def ExtentFlaw.message (f : ExtentFlaw) : String := f.remark ++ f.place

/-! ## §3 Reading -/

namespace Extent

/-- A part of a written extent: a comma, or the digits of a number. -/
inductive Token where
  | comma
  | number (digits : List Char)
  deriving DecidableEq, Repr

/-- The parts between blanks and parentheses. -/
def tokens : List Char → List Token
  | [] => []
  | ',' :: later => .comma :: tokens later
  | c :: later =>
    if c.isDigit then
      match later.head?.any Char.isDigit, tokens later with
      | true, .number digits :: rest => .number (c :: digits) :: rest
      | _, rest => .number [c] :: rest
    else
      tokens later

namespace Token

/-- The number of a part that is one. -/
def number? : Token → Option Nat
  | comma => none
  | number digits => some (Text.ofDigits (digits.map fun c => c.toNat - '0'.toNat))

/-- Whether a number starts with a zero and is not zero. -/
def hasLeadingZero : Token → Bool
  | number ('0' :: digits) => digits.any (· != '0')
  | _ => false

/-- The number of digits, if there are more than are read; zeros at the front do not count. -/
def excess? : Token → Option Nat
  | number ('0' :: _) | comma => none
  | number digits => if Text.maxDigits < digits.length then some digits.length else none

end Token

/-- How far a row of parts goes well: to its end, to a comma without a number before it, or to a
number that follows another one, of which is told whether it is the last part. -/
inductive Course where
  | complete
  | strayComma
  | strayNumber (last : Bool)
  deriving DecidableEq, Repr

/-- The parts that are looked at, and how far they go well; whether a number stands before them is
told. -/
def course (afterNumber : Bool) : List Token → List Token × Course
  | [] => ([], .complete)
  | .comma :: later =>
    if afterNumber then
      let (seen, rest) := course false later
      (.comma :: seen, rest)
    else
      ([.comma], .strayComma)
  | .number digits :: later =>
    if afterNumber then
      ([.number digits], .strayNumber later.isEmpty)
    else
      let (seen, rest) := course true later
      (.number digits :: seen, rest)

/-- The extent of parts that go well to the end. -/
def ofTokens : List Token → Extent
  | [.number digits] => .count ((Token.number digits).number?.getD 0)
  | ts => .axes (ts.filterMap Token.number?)

/-- The extent that some characters stand for: blanks, digits and commas, of which the first may be
an opening and the last a closing parenthesis. -/
def read? (cs : List Char) : Except ExtentFlaw Extent :=
  let opened := cs.contains '('
  let closed := cs.contains ')'
  let ts := tokens cs
  let (seen, ending) := course false ts
  if ts.any Token.hasLeadingZero then
    .error .leadingZero
  else if closed && !opened then
    .error .neverOpened
  else
    match seen.findSome? Token.excess?, ending with
    | some digits, _ => .error (.tooLong digits)
    | none, .complete =>
      if opened && !closed then .error .neverClosed
      else if ts.isEmpty && !opened then .error .blank
      else .ok (ofTokens ts)
    | none, .strayComma => .error .misplaced
    | none, .strayNumber last =>
      if !opened then .error .misplaced
      else if closed || !last then .error .noComma
      else .error .neverClosed

end Extent

end GraphFold.Index
