/-
GraphFold.Action — computations that may fail and that share a memory.

Evaluators and children lookups belong to the host of a walk. They may read
and write a memory of the host's choosing, and they may fail; what they wrote
before failing stays written. The walk itself never looks into the memory, it
only passes it on from one computation to the next.
-/

namespace GraphFold

/-- A computation over a memory `W` that fails with an `E`; the memory survives a failure. -/
abbrev Action (W E : Type) : Type → Type := ExceptT E (StateM W)

namespace Action

variable {W E α : Type}

/-- Carries the computation out: its answer, and the memory it leaves. -/
def perform (act : Action W E α) (memory : W) : Except E α × W :=
  (ExceptT.run act).run memory

/-- A computation that only changes the memory. -/
def write (f : W → W) : Action W E Unit := modify f

/-- A computation that is over already. -/
def ofExcept : Except E α → Action W E α
  | .ok a => pure a
  | .error e => throw e

@[simp] theorem perform_pure (a : α) (memory : W) :
    perform (pure a : Action W E α) memory = (.ok a, memory) := rfl

@[simp] theorem perform_throw (e : E) (memory : W) :
    perform (throw e : Action W E α) memory = (.error e, memory) := rfl

@[simp] theorem perform_write (f : W → W) (memory : W) :
    perform (write f : Action W E Unit) memory = (.ok (), f memory) := rfl

@[simp] theorem perform_ofExcept (r : Except E α) (memory : W) :
    perform (ofExcept r : Action W E α) memory = (r, memory) := by
  cases r <;> rfl

/-- In a sequence the second part starts from the memory the first one left,
and is not reached when the first one fails. -/
theorem perform_bind {β : Type} (act : Action W E α) (next : α → Action W E β) (memory : W) :
    perform (act >>= next) memory =
      match perform act memory with
      | (.ok a, left) => perform (next a) left
      | (.error e, left) => (.error e, left) := by
  simp only [perform, bind, ExceptT.bind, ExceptT.run, ExceptT.mk, StateT.bind, StateT.run,
    ExceptT.bindCont]
  rcases act memory with ⟨_ | _, left⟩ <;> rfl

end Action

end GraphFold
