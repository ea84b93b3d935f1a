/-
GraphFold.State.Lemmas — what each operation on a state does to its three parts.

A state is seen through `isSeen`, `path` and `context`. Recording a key changes
the first only, the operations on the path the second only, and replacing the
context the third only.
-/
import GraphFold.State
import Std.Data.TreeSet.Lemmas

namespace GraphFold.State

variable {N K S : Type} [Ord K]

/-! ## Seen keys -/

/-- Nothing has been seen at the start. -/
@[simp] theorem isSeen_new (context : S) (key : K) :
    (State.new context : State N K S).isSeen key = false := by
  simp [State.new, isSeen]

/-- After a key was recorded, the keys equal to it have been seen, and those seen before. -/
@[simp] theorem isSeen_mark [Std.TransOrd K] (s : State N K S) (key other : K) :
    (s.mark key).isSeen other = (compare key other == .eq || s.isSeen other) := by
  simp [mark, isSeen, Std.TreeSet.contains_insert]

@[simp] theorem isSeen_push (s : State N K S) (node : N) (key : K) :
    (s.push node).isSeen key = s.isSeen key := rfl

@[simp] theorem isSeen_withAncestors (s : State N K S) (ancestors : List N) (key : K) :
    (s.withAncestors ancestors).isSeen key = s.isSeen key := rfl

@[simp] theorem isSeen_withPath (s : State N K S) (path : List N) (key : K) :
    (s.withPath path).isSeen key = s.isSeen key := rfl

@[simp] theorem isSeen_withContext (s : State N K S) (context : S) (key : K) :
    (s.withContext context).isSeen key = s.isSeen key := rfl

/-! ## Paths -/

@[simp] theorem path_new (context : S) : (State.new context : State N K S).path = [] := rfl

@[simp] theorem path_mark (s : State N K S) (key : K) : (s.mark key).path = s.path := rfl

/-- A node that is pushed comes last on the path. -/
@[simp] theorem path_push (s : State N K S) (node : N) : (s.push node).path = s.path ++ [node] := by
  simp [push, path]

@[simp] theorem path_withPath (s : State N K S) (path : List N) : (s.withPath path).path = path := by
  simp [withPath, State.path]

@[simp] theorem path_withAncestors (s : State N K S) (ancestors : List N) :
    (s.withAncestors ancestors).path = ancestors.reverse := rfl

@[simp] theorem path_withContext (s : State N K S) (context : S) :
    (s.withContext context).path = s.path := rfl

/-- The depth is the length of the path. -/
theorem depth_eq_length_path (s : State N K S) : s.depth = s.path.length := by
  simp [depth, path]

/-- The parent is the last node of the path. -/
theorem parent?_eq_getLast?_path (s : State N K S) : s.parent? = s.path.getLast? := by
  simp [parent?, path]

/-! ## Contexts -/

@[simp] theorem context_new (context : S) : (State.new context : State N K S).context = context :=
  rfl

@[simp] theorem context_mark (s : State N K S) (key : K) : (s.mark key).context = s.context := rfl

@[simp] theorem context_push (s : State N K S) (node : N) : (s.push node).context = s.context := rfl

@[simp] theorem context_withPath (s : State N K S) (path : List N) :
    (s.withPath path).context = s.context := rfl

@[simp] theorem context_withAncestors (s : State N K S) (ancestors : List N) :
    (s.withAncestors ancestors).context = s.context := rfl

@[simp] theorem context_withContext (s : State N K S) (context : S) :
    (s.withContext context).context = context := rfl

end GraphFold.State
