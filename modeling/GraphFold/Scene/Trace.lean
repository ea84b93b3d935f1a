/-
GraphFold.Scene.Trace — the memory that scripts and objects of a scene share
during a walk, and what they write into it.

When tracing is on, every call of a scripted evaluator, and every call of a
children function of an object, a vertex or an adapter, leaves an entry. The
memory also holds the states that a script has set aside.
-/
import GraphFold.Action
import GraphFold.Scene

namespace GraphFold

/-- What a script has folded so far. -/
inductive Folded where
  | value (v : Value)
  /-- The result of a floating point operation that is undefined, and so no value. -/
  | undefined

/-- The class of what is folded where it is of no use for an operation. -/
def Folded.operandName : Folded → String
  | value v => v.operandName
  | undefined => NodeClass.real.operandName

/-- One entry of a trace. Nodes and keys are given by their labels. -/
inductive TraceEntry where
  /-- A script of rules was asked about a node, in this state and with this value. -/
  | eval (node : String) (depth : Nat) (path : List String) (seen : Nat) (value : Folded)
  /-- A node listed its children itself; was it seen, and under which path. -/
  | children (node : String) (seen : Bool) (path : List String)
  /-- An adapter listed the children of a node. -/
  | adapter (name : Value) (node : String) (seen : Bool) (path : List String)
  /-- A lazy listing made the item at this position. -/
  | yielded (index : Nat)
  /-- A fold is about to take its step. -/
  | step (node : String) (value : Folded)
  /-- A fold decided whether to leave the children out. -/
  | prune (node : String) (holds : Bool)
  /-- A guard checked a node, and came to a message or to `none`. -/
  | check (node : String) (message : Value)

/-- The memory shared during a walk. -/
structure Memory where
  tracing : Bool
  /-- The entries, newest first. -/
  trace : List TraceEntry
  /-- The states set aside, or the stray values in their place, by the codes of their names. -/
  stashed : OrderedMap (List Int) (Except Value ValueState)

/-- A memory at the start of a walk. -/
def Memory.start (tracing : Bool) : Memory := ⟨tracing, [], .empty⟩

/-- The trace in the order in which it was written. -/
def Memory.entries (m : Memory) : List TraceEntry := m.trace.reverse

/-- A computation in a scene. -/
abbrev SceneAction : Type → Type := Action Memory Fault

/-- The labels of a path, root first. -/
def pathLabels (s : ValueState) : List String := s.path.map Value.label

/-- Writes an entry if tracing is on; only then is the entry worked out. -/
def record (entry : Unit → SceneAction TraceEntry) : SceneAction Unit := do
  if (← get).tracing then
    let e ← entry ()
    Action.write fun m => { m with trace := e :: m.trace }

namespace Scene

/-- The key of a node: its own if it has one, else its place, else the node itself. A syntax node
has a key of its own in an attribute. A key that is described by something that lacks it counts
as none. -/
def key (scene : Scene) (node : Value) : Except Fault Key :=
  match node with
  | .treeNode t index => .ok (.place .tree t.serial t.name index)
  | .graphNode g index => .ok (.place .graph g.serial g.name index)
  | .object o =>
    if o.cls.hasKey then
      match scene.objects[o.id]?.bind (·.key?) with
      | some description => ofDescription description
      | none => .ok (.value .none)
    else
      ofHashable node
  | .syntaxNode n =>
    match (scene.syntaxEntry? n).bind (·.attribute? SyntaxEntry.keyAttribute) with
    | some description => ofDescription description
    | none => ofHashable node
  | v => ofHashable v
where
  /-- A key of the node's own. -/
  ofDescription (description : Description) : Except Fault Key :=
    match scene.read description with
    | .ok v => .ok (.value v)
    | .error .lacking => ofHashable node
    | .error fault => .error fault
  /-- A value as its own key. -/
  ofHashable (v : Value) : Except Fault Key :=
    match v.unhashablePart? with
    | some _ => .error (.unhashableNode v.className)
    | none => .ok (.value v)

/-- The key of a node as a seen set takes it: all its parts have to be hashable. -/
def identity (scene : Scene) (node : Value) : Except Fault Key := do
  let key ← scene.key node
  match key.unhashablePart? with
  | some cls => throw (.unhashableKey cls)
  | none => return key

/-- Whether the key of a node has been seen in a state. -/
def isSeen (scene : Scene) (s : ValueState) (node : Value) : Except Fault Bool :=
  (scene.identity node).map s.isSeen

/-- The state in which a node has been seen as well. -/
def mark (scene : Scene) (s : ValueState) (node : Value) : Except Fault ValueState :=
  (scene.identity node).map s.mark

end Scene

end GraphFold
