/-
GraphFold.Registry — adapters registered for classes.

A class can be registered once, unless the new registration says it overwrites;
overwriting keeps the place of the class in the registry. A class may be
registered without an adapter: it is then in the registry, but a search passes
on to the next class above it.

The registry is generic in the classes `C` and the adapters `F`.
-/
import GraphFold.OrderedMap

namespace GraphFold

/-- The registered classes, oldest registration first, each with its adapter if it has one. -/
abbrev Registry (C F : Type) : Type := OrderedMap C (Option F)

/-- Why a registry refuses a change. -/
inductive RegistryError (C : Type) where
  | alreadyRegistered (cls : C)
  | notRegistered (cls : C)
  deriving DecidableEq, Repr

/-- The report on a refusal, given the qualified name of a class. -/
def RegistryError.message {C : Type} (qualifiedName : C → String) : RegistryError C → String
  | .alreadyRegistered cls =>
    "node type '" ++ qualifiedName cls ++
      "' is already registered; pass overwrite=True to replace it"
  | .notRegistered cls => "node type '" ++ qualifiedName cls ++ "' is not registered"

namespace Registry

variable {C F : Type} [DecidableEq C]

/-- Registers an adapter, or none, for a class. -/
def register (r : Registry C F) (cls : C) (adapter : Option F) (overwrite : Bool) :
    Except (RegistryError C) (Registry C F) :=
  if r.contains cls && !overwrite then
    .error (.alreadyRegistered cls)
  else
    .ok (r.insert cls adapter)

/-- Drops the registration of exactly this class. -/
def unregister (r : Registry C F) (cls : C) : Except (RegistryError C) (Registry C F) :=
  if r.contains cls then .ok (r.erase cls) else .error (.notRegistered cls)

/-- The registered classes by qualified name, in code point order; classes of one name in
the order of their registrations. -/
def listing (r : Registry C F) (qualifiedName : C → String) : List C :=
  r.keys.mergeSort fun a b => qualifiedName a ≤ qualifiedName b

/-- The adapter of the first class in the order that has one. -/
def resolve (r : Registry C F) (order : List C) : Option F :=
  order.findSome? fun cls => (r.find? cls).join

end Registry

end GraphFold
