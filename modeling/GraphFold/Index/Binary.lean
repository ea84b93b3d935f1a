/-
GraphFold.Index.Binary — floating point numbers of 64 bits, taken apart.

A finite number is `± m · 2^q` with natural `m` and integral `q`; sign, `m` and
`q` are read off the bits. All questions about such a number are answered
exactly, in integers. An infinite number is taken for the power of two above all
finite ones, with a fraction, so that it lies beyond every index; where numbers
are compared, it lies beyond every integer too. Bits that are UNDEFINED stand for
no number at all.
-/

namespace GraphFold.Index

/-- Two to the power of an exponent. -/
def powerOfTwo (exponent : Nat) : Nat := 1 <<< exponent

/-- Whether bits stand for no number: the scale is that of an infinite one, but something stands
behind the point. -/
def undefinedBits (bits : UInt64) : Bool :=
  (bits.toNat >>> 52) % 2048 == 2047 && bits.toNat % powerOfTwo 52 != 0

/-- A floating point number, kept by its bits. It is a number, and so equal to itself. -/
structure Binary where
  bits : UInt64
  defined : undefinedBits bits = false
  deriving DecidableEq, Repr

namespace Binary

/-- The number of some bits, if they stand for one. -/
def ofBits? (bits : UInt64) : Option Binary :=
  if h : undefinedBits bits = false then some ⟨bits, h⟩ else none

/-- The number that a float stands for, if it stands for one. -/
def ofFloat? (x : Float) : Option Binary := ofBits? x.toBits

/-- The floating point number of some bits. -/
def toFloat (x : Binary) : Float := .ofBits x.bits

/-- Integers of this size and more are beyond all finite numbers. -/
def bound : Nat := powerOfTwo 1024 - powerOfTwo 970

/-- Whether the sign is set; zero has a sign too. -/
def isNegative (x : Binary) : Bool := x.bits.toNat >>> 63 = 1

/-- The bits that scale the number. -/
def scale (x : Binary) : Nat := (x.bits.toNat >>> 52) % 2048

/-- The bits behind the point. -/
def fraction (x : Binary) : Nat := x.bits.toNat % powerOfTwo 52

/-- Whether the number is not infinite. -/
def isFinite (x : Binary) : Bool := x.scale != 2047

/-- On which side of all finite numbers an infinite number lies; zero for the others. -/
def side (x : Binary) : Int := if x.isFinite then 0 else if x.isNegative then -1 else 1

/-- The factor `m`. -/
def significand (x : Binary) : Nat :=
  if x.scale = 0 then x.fraction else x.fraction + powerOfTwo 52

/-- The least positive number is `2^-1074`. -/
def leastExponent : Nat := 1074

/-- The exponent `q`. -/
def exponent (x : Binary) : Int := (if x.scale = 0 then 1 else (x.scale : Int)) - 1075

/-- Nothing stands behind the point. -/
def isWhole (x : Binary) : Bool :=
  x.isFinite && (0 ≤ x.exponent || x.significand % powerOfTwo (-x.exponent).toNat == 0)

/-- The integer part, its sign kept: what stands behind the point is dropped. -/
def truncate (x : Binary) : Int :=
  let size :=
    if 0 ≤ x.exponent then x.significand <<< x.exponent.toNat
    else x.significand >>> (-x.exponent).toNat
  if x.isNegative then -(size : Int) else size

/-- The greatest integer that is not above the number. -/
def floor (x : Binary) : Int :=
  if x.isNegative && !x.isWhole then x.truncate - 1 else x.truncate

/-- The number in units of the least positive one. -/
def units (x : Binary) : Int :=
  let size := x.significand <<< (x.exponent + leastExponent).toNat
  if x.isNegative then -(size : Int) else size

/-- A number that is not below zero is rounded down by being truncated. -/
theorem truncate_eq_floor {x : Binary} (h : 0 ≤ x.floor) : x.truncate = x.floor := by
  unfold floor at h ⊢
  split at h
  · rename_i hbelow
    have hnegative : x.isNegative = true := (Bool.and_eq_true_iff.1 hbelow).1
    have hle : x.truncate ≤ 0 := by
      simp only [truncate, hnegative, if_true]
      omega
    omega
  · rename_i habove
    rw [if_neg habove]

end Binary

end GraphFold.Index
