/-
GraphFold.Index.Numeral — numbers as they are given.

A number may be given as a truth value, as an integer or as a binary floating
point number. A truth value counts as 0 or 1. Where a number is asked for,
something else may be given; of that only the class matters.
-/
import GraphFold.Text.Decimal

namespace GraphFold.Index

/-- A number as it was given. -/
inductive Numeral where
  | truth (b : Bool)
  | int (i : Int)
  | real (x : Binary)
  deriving DecidableEq, Repr

namespace Numeral

/-- The integer meant. A floating point number is truncated toward zero, exactly. -/
def toInt : Numeral → Int
  | truth b => if b then 1 else 0
  | int i => i
  | real x => x.truncate

/-- The greatest integer that is not above the number. -/
def floor : Numeral → Int
  | real x => x.floor
  | n => n.toInt

/-- A number that is not below zero is rounded down to the integer meant. -/
theorem toInt_eq_floor {n : Numeral} (h : 0 ≤ n.floor) : n.toInt = n.floor := by
  cases n with
  | truth | int => rfl
  | real x => exact Binary.truncate_eq_floor h

/-- Whether the number is an integer. -/
def isWhole : Numeral → Bool
  | real x => x.isWhole
  | _ => true

/-- The number itself, apart from the way it was given: the greatest integer not above it, and,
if that is not the number, the bits. -/
def exact (n : Numeral) : Int × Nat :=
  match n with
  | real x => (x.floor, if x.isWhole then 0 else x.bits.toNat)
  | n => (n.toInt, 0)

/-- The number in units of the least positive binary one, in which all numbers are integers. -/
def units : Numeral → Int
  | real x => x.units
  | n => n.toInt * powerOfTwo Binary.leastExponent

/-- On which side of all integers a number lies; zero for those that lie among them. -/
def side : Numeral → Int
  | real x => x.side
  | _ => 0

/-- Numbers are ordered by their size. -/
instance : Ord Numeral := ⟨compareLex (compareOn side) (compareOn units)⟩

/-- The number as it is shown: the way it was given. -/
def text : Numeral → String
  | truth b => if b then "True" else "False"
  | int i => toString i
  | real x => x.text

/-- The class of a number. -/
def className : Numeral → String
  | truth _ => "bool"
  | int _ => "int"
  | real _ => "float"

/-- The floating point number next to a number; none if that is an integer beyond all of them. -/
def toFloat? : Numeral → Option Float
  | real x => some x.toFloat
  | n => if n.toInt.natAbs < Binary.bound then some (Float.ofInt n.toInt) else none

/-- Why an operation comes to no number. -/
inductive ArithmeticError where
  /-- An integer is beyond all floating point numbers. -/
  | overflow
  /-- The result is undefined. -/
  | undefined
  deriving DecidableEq, Repr

/-- An operation on two numbers: on integers, or, if one is a floating point number, on such
numbers. -/
def operate? (onInts : Int → Int → Int) (onFloats : Float → Float → Float) (a b : Numeral) :
    Except ArithmeticError Numeral :=
  match a, b with
  | real _, _ | _, real _ =>
    match a.toFloat?, b.toFloat? with
    | some x, some y => ((Binary.ofFloat? (onFloats x y)).map real).elim (.error .undefined) .ok
    | _, _ => .error .overflow
  | a, b => .ok (int (onInts a.toInt b.toInt))

/-- The sum of two numbers. -/
def plus? : Numeral → Numeral → Except ArithmeticError Numeral := operate? (· + ·) (· + ·)

/-- The product of two numbers. -/
def times? : Numeral → Numeral → Except ArithmeticError Numeral := operate? (· * ·) (· * ·)

end Numeral

/-- A number, or the class of what is given in its place. -/
abbrev GivenNumeral : Type := Except String Numeral

/-- The natural number that is given, if it is one. -/
def GivenNumeral.natural? : GivenNumeral → Option Nat
  | .ok n => if n.isWhole && 0 ≤ n.floor then some n.floor.toNat else none
  | .error _ => none

/-- The class of what is given for a number. -/
def GivenNumeral.className : GivenNumeral → String
  | .ok n => n.className
  | .error cls => cls

end GraphFold.Index
