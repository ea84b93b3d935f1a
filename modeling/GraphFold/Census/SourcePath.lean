/-
GraphFold.Census.SourcePath — paths of source files.

A path is its parts between slashes; empty parts and single dots count for
nothing. It starts at the root if it begins with a slash, where exactly two
slashes are kept.
-/
import GraphFold.Text.Quoted

namespace GraphFold.Census

/-- A path: how it is anchored, and its parts. -/
structure SourcePath where
  anchor : String
  parts : List String
  deriving DecidableEq, Repr

namespace SourcePath

/-- How a path is anchored. -/
def anchorOf : List Char → String
  | '/' :: '/' :: '/' :: _ => "/"
  | '/' :: '/' :: _ => "//"
  | '/' :: _ => "/"
  | _ => ""

/-- The path a text stands for. -/
def ofText (s : String) : SourcePath :=
  ⟨anchorOf s.toList, (s.splitOn "/").filter fun part => part ≠ "" ∧ part ≠ "."⟩

/-- The text of a path; the empty path is a dot. -/
def text (p : SourcePath) : String :=
  if p.anchor = "" ∧ p.parts = [] then "." else p.anchor ++ "/".intercalate p.parts

/-- A path as it is shown. -/
def exact (p : SourcePath) : String := "PosixPath(" ++ Text.quoted p.text ++ ")"

end SourcePath

end GraphFold.Census
