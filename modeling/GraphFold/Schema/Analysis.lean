/-
GraphFold.Schema.Analysis — which types of a schema can be reached from a type,
and which fields lead back to a type that encloses them.

Both are folds over the walk that starts at a type with the schema as context:
a type leads to its fields, a field to its type.
-/
import GraphFold.Scene.Reduction

namespace GraphFold

/-- Collects the names of types in the order of the visit. -/
def collectTypes : FoldOver (List String) := fun node state names =>
  return match node with
    | .objectType t => .proceed (names ++ [t.name]) (.ok state)
    | .scalarType name => .proceed (names ++ [name]) (.ok state)
    | _ => .proceed names (.ok state)

/-- The names of the object types among the ancestors of a node. -/
def enclosingTypes (state : ValueState) : List String :=
  state.ancestors.filterMap fun
    | .objectType t => some t.name
    | _ => none

/-- Collects the fields whose type encloses them, as owner and name, and goes no further
there. -/
def collectRecursive : FoldOver (List String) := fun node state found =>
  return match node with
    | .field f =>
      if (enclosingTypes state).contains f.typeName then
        .prune (found ++ [f.owner ++ "." ++ f.name]) (.ok state)
      else
        .proceed found (.ok state)
    | _ => .proceed found (.ok state)

/-- What a walk over a scene works under: a registry, what stands for a policy, and a budget of
steps. -/
structure Terms where
  registry : ValueRegistry
  policy : GivenPolicy
  budget : Nat

/-- What a walk of one purpose comes to: what was collected, or why the walk ended before. -/
def Scene.collected {A : Type} (scene : Scene) (terms : Terms) :
    ValueOutcome A → Except ErrorReport A
  | .finished c => .ok c.value
  | .failed failure _ => .error (scene.report (scene.regime terms.policy) failure)
  | .unfinished _ => .error (.silent .runtime)

/-- Folds over the types that hang together with a type of a schema, given by its name. The
name of the schema itself is for labels. -/
def Scene.analyse (scene : Scene) (terms : Terms) (collect : FoldOver (List String))
    (name : String) (schema : Schema) (root : String) : Except ErrorReport (List String) :=
  match schema.resolve root with
  | .error e => .error (.ofFault (.schema e))
  | .ok type =>
    scene.collected terms <|
      scene.reduceUnder terms.registry (scene.regime terms.policy) collect none terms.budget
        ⟨type, .schema name schema, []⟩ false

/-- The names of the types reachable from a type, in the order of the visit. -/
def Scene.reachableTypes (scene : Scene) (terms : Terms) (name : String) (schema : Schema)
    (root : String) : Except ErrorReport (List String) :=
  scene.analyse terms collectTypes name schema root

/-- The fields, as owner and name, that lead back to a type enclosing them, in the order of
the visit. -/
def Scene.recursiveFields (scene : Scene) (terms : Terms) (name : String) (schema : Schema)
    (root : String) : Except ErrorReport (List String) :=
  scene.analyse terms collectRecursive name schema root

end GraphFold
