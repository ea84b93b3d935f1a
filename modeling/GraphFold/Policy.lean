/-
GraphFold.Policy — the limits a walk is given, with a description.

A walk without a policy of its own falls back to the default policy, and where
none is set to the one without a limit.
-/
import GraphFold.Value
import GraphFold.Walk

namespace GraphFold

open Index (Numeral GivenNumeral)

/-- How deep a walk may go, whether answers are checked, and a description. All of them are kept as
they were given; `checked` may be any value that counts as true or not. -/
structure Policy where
  maxDepth : Option Numeral
  checked : Value
  description : Value

/-- Why there is no policy with a limit. -/
inductive PolicyError where
  /-- The limit is below zero. -/
  | negative
  /-- The limit is no number, but a value of this class. -/
  | notNumber (cls : String)
  deriving DecidableEq, Repr

namespace Policy

/-- The policy without a limit on the depth. -/
def standard : Policy := ⟨none, .truth true, .text "Unbounded depth-first reduction."⟩

/-- A policy, unless its limit is no number or below zero. -/
def make? (maxDepth : Option GivenNumeral) (checked description : Value) :
    Except PolicyError Policy :=
  match maxDepth with
  | some (.error cls) => .error (.notNumber cls)
  | some (.ok limit) =>
    if limit.floor < 0 then .error .negative else .ok ⟨some limit, checked, description⟩
  | none => .ok ⟨none, checked, description⟩

/-- The limits of a walk under this policy. -/
def limits (p : Policy) : Limits := ⟨p.maxDepth.map Numeral.floor, p.checked.isTrue⟩

end Policy

/-- A value that stands for a policy: one, or something else. -/
abbrev GivenPolicy : Type := Except Value Policy

/-- What stands for the policy in force: the one given, else the default one, else the standard
one. -/
def GivenPolicy.inForce (given fallback : Option GivenPolicy) : GivenPolicy :=
  (given <|> fallback).getD (.ok .standard)

end GraphFold
