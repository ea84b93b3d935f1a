/-
GraphFold.Text.Decimal — the shortest decimal of a floating point number.

The numbers that are rounded to a given one fill an interval, which includes
its ends if the factor of the number is even. The text of the number has the
fewest digits with which a decimal lies in that interval; of two such decimals
the nearer one is taken, and of two equally near ones the one with an even last
digit. Between 0.0001 and 10^16 it is written with a point, beyond with an
exponent.

  §1 Decimals — comparing them with binary numbers.
  §2 Search   — `Binary.shortest`.
  §3 Layout   — `Binary.text`.
-/
import GraphFold.Index.Binary

namespace GraphFold.Text

open Index (Binary powerOfTwo)

/-! ## §1 Decimals -/

/-- Ten to the power of an exponent. -/
def powerOfTen (exponent : Nat) : Nat := Nat.pow 10 exponent

/-- A decimal: `digits · 10^exponent`. -/
structure Decimal where
  digits : Nat
  exponent : Int
  deriving DecidableEq, Repr

namespace Decimal

/-- Compares a decimal with `m · 2^q`. -/
def compare (d : Decimal) (m : Nat) (q : Int) : Ordering :=
  Ord.compare (d.digits * powerOfTen d.exponent.toNat * powerOfTwo (-q).toNat)
    (m * powerOfTwo q.toNat * powerOfTen (-d.exponent).toNat)

/-- Whether a decimal is rounded to the size of a number: it lies between the middles towards the
two neighbours. The neighbour below a power of two is half as far away. -/
def readsAs (d : Decimal) (x : Binary) : Bool :=
  let m := x.significand
  let low := if x.fraction = 0 ∧ 1 < x.scale then 4 * m - 1 else 4 * m - 2
  let below := d.compare low (x.exponent - 2)
  let above := d.compare (4 * m + 2) (x.exponent - 2)
  if m % 2 = 0 then below != .lt && above != .gt else below == .gt && above == .lt

end Decimal

/-! ## §2 Search -/

/-- The most digits that are needed. -/
def maxPlaces : Nat := 17

/-- The greatest number of digits before the point, and a bound for the zeros behind it. -/
def maxScale : Nat := 400

/-- The least `k` such that a number which is not zero is below `10^k`. -/
def magnitude (x : Binary) : Int :=
  let below (k : Int) : Bool := (Decimal.mk 1 k).compare x.significand x.exponent == .gt
  let scales := (List.range (2 * maxScale)).map fun k : Nat => (k : Int) - maxScale
  (scales.find? below).getD 0

/-- The greatest multiple of `10^exponent` that is not above the size of a number. -/
def roundDown (x : Binary) (exponent : Int) : Decimal :=
  let above := x.significand * powerOfTwo x.exponent.toNat * powerOfTen (-exponent).toNat
  ⟨above / (powerOfTwo (-x.exponent).toNat * powerOfTen exponent.toNat), exponent⟩

/-- The decimal on a grid that is rounded to a number, if there is one: of the two neighbours of
the number on this grid the nearer one, of equally near ones the even one. -/
def onGrid? (x : Binary) (exponent : Int) : Option Decimal :=
  let down := roundDown x exponent
  let up : Decimal := ⟨down.digits + 1, exponent⟩
  let middle : Decimal := ⟨2 * down.digits + 1, exponent⟩
  match down.readsAs x, up.readsAs x with
  | true, true =>
    match middle.compare (2 * x.significand) x.exponent with
    | .gt => some down
    | .lt => some up
    | .eq => some (if down.digits % 2 = 0 then down else up)
  | true, false => some down
  | false, true => some up
  | false, false => none

/-- The decimal with the fewest digits that is rounded to the size of a number which is not
zero. -/
def shortest (x : Binary) : Decimal :=
  let k := magnitude x
  let places := (List.range maxPlaces).map fun n : Nat => (n : Int) + 1
  (places.findSome? fun n => onGrid? x (k - n)).getD ⟨x.significand, x.exponent⟩

/-! ## §3 Layout -/

/-- A sign, if there is one, and digits: at least two of them. -/
def exponentText (e : Int) : String :=
  let digits := toString e.natAbs
  (if e < 0 then "-" else "+") ++ (if digits.length < 2 then "0" ++ digits else digits)

/-- Some zeros. -/
def zerosText (count : Nat) : String := String.ofList (List.replicate count '0')

/-- The digits of a decimal that is not zero, the zeros at the end left out. -/
def significantDigits (digits : Nat) : List Char :=
  ((Nat.toDigits 10 digits).reverse.dropWhile (· == '0')).reverse

/-- The text of a decimal that is not zero. -/
def Decimal.text (d : Decimal) : String :=
  let digits := significantDigits d.digits
  let lead : Int := ((Nat.toDigits 10 d.digits).length : Int) + d.exponent - 1
  if lead < -4 ∨ 16 ≤ lead then
    let rest := digits.drop 1
    String.ofList (digits.take 1) ++ (if rest.isEmpty then "" else "." ++ String.ofList rest) ++
      "e" ++ exponentText lead
  else if lead < 0 then
    "0." ++ zerosText ((-lead).toNat - 1) ++ String.ofList digits
  else
    let before := lead.toNat + 1
    if digits.length ≤ before then
      String.ofList digits ++ zerosText (before - digits.length) ++ ".0"
    else
      String.ofList (digits.take before) ++ "." ++ String.ofList (digits.drop before)

/-- The text of the size of a number. -/
def sizeText (x : Binary) : String :=
  if !x.isFinite then
    "inf"
  else if x.significand = 0 then
    "0.0"
  else
    (shortest x).text

end GraphFold.Text

namespace GraphFold.Index

/-- A number as it is shown: the shortest decimal that is rounded to it. -/
def Binary.text (x : Binary) : String := (if x.isNegative then "-" else "") ++ Text.sizeText x

end GraphFold.Index
