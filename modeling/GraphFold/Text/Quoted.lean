/-
GraphFold.Text.Quoted — texts in quotes, and the escapes inside them.

A text is put in single quotes, or in double quotes when it holds a single
quote and no double quote. The quote in use and the backslash are escaped by a
backslash, three blanks have an escape letter, and any other character that is
not printable is written by its code point: two, four or eight hexadecimal
digits after `x`, `u` or `U`.
-/
import GraphFold.Text.Printable

namespace GraphFold.Text

/-- A hexadecimal digit, in lower case. -/
def hexDigit (d : Nat) : Char := (Nat.toDigits 16 (d % 16)).headD '0'

/-- The last `width` hexadecimal digits of a number. -/
def hex : Nat → Nat → List Char
  | 0, _ => []
  | width + 1, n => hex width (n / 16) ++ [hexDigit n]

/-- How a character is written between two of the given quotes. -/
def escape (quote c : Char) : List Char :=
  if c = quote ∨ c = '\\' then ['\\', c]
  else if c = '\n' then ['\\', 'n']
  else if c = '\r' then ['\\', 'r']
  else if c = '\t' then ['\\', 't']
  else if isPrintable c then [c]
  else if c.toNat < 256 then '\\' :: 'x' :: hex 2 c.toNat
  else if c.toNat < 65536 then '\\' :: 'u' :: hex 4 c.toNat
  else '\\' :: 'U' :: hex 8 c.toNat

/-- The quote a text is put in. -/
def quoteFor (s : String) : Char :=
  if s.toList.contains '\'' && !s.toList.contains '"' then '"' else '\''

/-- A text in quotes. -/
def quoted (s : String) : String :=
  let quote := quoteFor s
  String.ofList (quote :: s.toList.flatMap (escape quote) ++ [quote])

end GraphFold.Text
