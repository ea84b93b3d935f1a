/-
GraphFold.Text.Real — which texts are read as real and as complex numbers.

A REAL NUMERAL is a word for a number that is infinite or undefined, or digits
of which a point may stand before, after or between any two, and which may be
followed by an exponent; a sign may stand before it. A COMPLEX NUMERAL has a
real part, an imaginary part, or both, and may be put in parentheses; the unit
of the imaginary part may stand without a number. Both may stand between
blanks, their digits are decimal digits of any script, and two digits may be
kept apart by one underscore.

Here it is only found out what is a numeral. The parts of a numeral are cut
off the front of a text, each as long as can be; what is left is returned.

  §1 Characters — one script, and no underscores.
  §2 Real numerals    — `isReal`.
  §3 Complex numerals — `complexError?`.
-/
import GraphFold.Text.Integer

namespace GraphFold.Text

/-! ## §1 Characters -/

/-- A decimal digit of any script as the plain digit of its value; any other character as it is. -/
def plainDigit (c : Char) : Char := ((digit? c).map Nat.digitChar).getD c

/-- A text without its underscores, unless one of them does not stand between two digits; whether a
digit stands before the text is told. -/
def joined? (afterDigit : Bool) : List Char → Option (List Char)
  | [] => some []
  | ['_'] => none
  | '_' :: c :: later =>
    if afterDigit && c.isDigit then (joined? true later).map (c :: ·) else none
  | c :: later => (joined? c.isDigit later).map (c :: ·)

/-- Whether a character can be part of what is read: a plain one, a blank, or a digit. -/
def isLegible (c : Char) : Bool := c.toNat < 128 || isBlank c || (digit? c).isSome

/-- The characters of a text, with plain digits. The first that cannot be part of what is read is
replaced by a mark that no numeral has, and ends the text. -/
def legible : List Char → List Char
  | [] => []
  | c :: later => if isLegible c then plainDigit c :: legible later else ['?']

/-- The characters of a text in which numerals are looked for. Underscores are looked for before the
first null character only; if there are some, there has to be no null character. -/
def numeralChars? (s : String) : Option (List Char) :=
  let cs := legible s.toList
  let front := cs.takeWhile (· != '\x00')
  if !front.contains '_' then some cs
  else if front.length = cs.length then joined? false cs
  else none

/-! ## §2 Real numerals -/

/-- What is left after an exponent, if there is one: a letter, maybe a sign, and digits. -/
def afterExponent : List Char → List Char
  | [] => []
  | c :: later =>
    let digits := afterSign later
    if (c == 'e' || c == 'E') && digits.head?.any Char.isDigit then
      digits.dropWhile Char.isDigit
    else
      c :: later

/-- What is left after a word in letters of either case. -/
def afterWord? (cs : List Char) (word : String) : Option (List Char) :=
  if (cs.take word.length).map Char.toLower = word.toList then some (cs.drop word.length) else none

/-- The words for numbers that have no digits; one that continues another comes before it. -/
def realWords : List String := ["infinity", "inf", "nan"]

/-- What is left after digits and a point, in any order, of which one digit is needed. -/
def afterDigits? (cs : List Char) : Option (List Char) :=
  match cs.takeWhile Char.isDigit, cs.dropWhile Char.isDigit with
  | [], '.' :: later =>
    if later.head?.any Char.isDigit then some (later.dropWhile Char.isDigit) else none
  | [], _ => none
  | _, '.' :: later => some (later.dropWhile Char.isDigit)
  | _, rest => some rest

/-- What is left after a real numeral. -/
def afterReal? (cs : List Char) : Option (List Char) :=
  let size := afterSign cs
  realWords.findSome? (afterWord? size) <|> (afterDigits? size).map afterExponent

/-- Whether a text is a real numeral. -/
def isReal (s : String) : Bool :=
  match (numeralChars? s).bind fun cs => afterReal? (cs.dropWhile isBlank) with
  | some rest => rest.all isBlank
  | none => false

/-! ## §3 Complex numerals -/

/-- What is left after the unit of the imaginary part. -/
def afterUnit? : List Char → Option (List Char)
  | 'j' :: rest | 'J' :: rest => some rest
  | _ => none

/-- Whether a sign stands at the front. -/
def startsWithSign : List Char → Bool
  | '+' :: _ | '-' :: _ => true
  | _ => false

/-- What is left after a complex numeral without parentheses. A number is the imaginary part if the
unit follows, else the real part; an imaginary part with a sign of its own may follow that. -/
def afterParts? (cs : List Char) : Option (List Char) :=
  match afterReal? cs with
  | none => afterUnit? (afterSign cs)
  | some rest =>
    if startsWithSign rest then
      afterUnit? ((afterReal? rest).getD (afterSign rest))
    else
      some ((afterUnit? rest).getD rest)

/-- What is left after a complex numeral, which may be put in parentheses. -/
def afterComplex? (cs : List Char) : Option (List Char) :=
  match cs with
  | '(' :: inner =>
    match (afterParts? (inner.dropWhile isBlank)).map (·.dropWhile isBlank) with
    | some (')' :: rest) => some rest
    | _ => none
  | cs => afterParts? cs

/-- Why a text is no complex numeral. -/
inductive ComplexError where
  /-- An underscore stands elsewhere than between digits. -/
  | underscore
  | malformed
  deriving DecidableEq, Repr

/-- Why a text is no complex numeral, if it is none. -/
def complexError? (s : String) : Option ComplexError :=
  match numeralChars? s with
  | none => some .underscore
  | some cs =>
    match afterComplex? (cs.dropWhile isBlank) with
    | some rest => if rest.all isBlank then none else some .malformed
    | none => some .malformed

end GraphFold.Text
