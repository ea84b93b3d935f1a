/-
GraphFold.Walk.Recursive — the same fold by recursion.

A walk keeps a stack of half-consumed listings; here the stack is the
recursion's own. Folding a node handles it and then folds its children, the
next child being asked for after the whole subtree of the one before; at the
end the listing is ended and the ancestors it came with are put back. Depth is the number of ancestors
in the state, for there are no frames to be counted.

The recursion is structural on a FUEL that bounds its depth. Running out of it
is an end of its own, apart from the failures of a walk.

  §1 Accounts   — what the fold carries along.
  §2 Parts      — host computations, reports, answers.
  §3 The fold   — `Setting.foldChildren`, `Setting.foldNode`.
-/
import GraphFold.Walk

namespace GraphFold

/-! ## §1 Accounts -/

/-- What a fold carries along: a point of a walk without its stack. -/
structure Account (N K S A V E W L : Type) [Ord K] where
  state : State N K S
  value : A
  evaluations : Nat
  memory : W
  heard : L
  journal : List (Entry N K S A V E)

/-- Why a fold ends early. -/
inductive Stop (N V E : Type) where
  | failed (failure : Failure N V E)
  /-- The recursion is deeper than the fuel allows. -/
  | exhausted

/-- A computation over the account of a fold. -/
abbrev Folding (N K S A V E W L : Type) [Ord K] : Type → Type :=
  Action (Account N K S A V E W L) (Stop N V E)

variable {N K S A V E W L : Type} [Ord K]

/-- The account at the start of a fold: nothing has been seen. -/
def Account.start (context : S) (value : A) (memory : W) (heard : L) :
    Account N K S A V E W L :=
  ⟨State.new context, value, 0, memory, heard, []⟩

/-- The account of a walk at one of its points. -/
def Config.account (c : Config N K S A V E W L) : Account N K S A V E W L :=
  ⟨c.state, c.value, c.evaluations, c.memory, c.heard, c.journal⟩

/-! ## §2 Parts -/

namespace Folding

/-- Gives up. -/
def giveUp {α : Type} (failure : Failure N V E) : Folding N K S A V E W L α :=
  throw (.failed failure)

/-- What the host answered; its failure gives up the fold. -/
def ofHost {α : Type} : Except E α → Folding N K S A V E W L α
  | .ok a => pure a
  | .error e => giveUp (.raised e)

/-- Carries out a computation of the host over the host's memory. -/
def host {α : Type} (act : Action W E α) : Folding N K S A V E W L (Except E α) := do
  let (answer, memory) := act.perform (← get).memory
  modify fun a => { a with memory := memory }
  return answer

/-- Writes an entry into the journal. -/
def note (entry : Entry N K S A V E) : Folding N K S A V E W L Unit :=
  modify fun a => { a with journal := entry :: a.journal }

/-- Takes over a value and a state. -/
def carryOn (value : A) (state : State N K S) : Folding N K S A V E W L Unit :=
  modify fun a => { a with value := value, state := state }

/-- Replaces the state. -/
def enter (change : State N K S → State N K S) : Folding N K S A V E W L Unit :=
  modify fun a => { a with state := change a.state }

end Folding

/-! ## §3 The fold -/

namespace Setting

variable (g : Setting N K S A V E W L)

open Folding

/-- Reports how a node was handled, to the journal and to the listener. -/
def announce (kind : EventKind) (node : N) (depth : Nat) : Folding N K S A V E W L Unit := do
  let event : Event N := ⟨kind, depth, node, (← get).evaluations⟩
  note (.handled event)
  match g.listener with
  | none => return
  | some hear =>
    let (raised, heard) := hear event (← get).heard
    modify fun a => { a with heard := heard }
    if raised then
      note .listenerRaised

/-- Asks the evaluator about a node, and counts the answer. -/
def ask (node : N) : Folding N K S A V E W L (Answer N K S A V) := do
  let a ← get
  let answer ← host (g.evaluator node a.state a.value)
  note (.called node a.state a.value answer)
  let answer ← ofHost answer
  modify fun a => { a with evaluations := a.evaluations + 1 }
  if g.limits.checked then
    match answer with
    | .proceed _ (.error given) => giveUp (.notState .proceed given)
    | .prune _ (.error given) => giveUp (.notState .prune given)
    | .stray given => giveUp (.notInstruction given node)
    | _ => return answer
  else
    return answer

/-- Looks up the children of a node under the state at hand. -/
def lookUp (node : N) (depth : Nat) : Folding N K S A V E W L (Pulls W E N) := do
  let s := (← get).state
  match ← host (g.children node s) with
  | .error e =>
    note (.asked node s none)
    giveUp (.raised e)
  | .ok (.error e) =>
    note (.asked node s none)
    g.announce .descend node depth
    giveUp (.raised e)
  | .ok (.ok pulls) =>
    note (.asked node s (some pulls.each.length))
    g.announce .descend node depth
    return pulls

/-- Folds children in order: each is asked for when the ones before it are folded. -/
def foldChildren (visit : N → Folding N K S A V E W L Unit) :
    List (Pull W E N) → Folding N K S A V E W L Unit
  | [] => return
  | pull :: later => do
    visit (← ofHost (← host pull))
    foldChildren visit later

/-- Acts on an answer about a node with this key, which was reached in the state `s`. -/
def heed (visit : N → Folding N K S A V E W L Unit) (node : N) (key : K) (s : State N K S) :
    Answer N K S A V → Folding N K S A V E W L Unit
  | .fail reason => do
    g.announce .fail node s.depth
    giveUp (.rejected reason node s.path)
  | .prune value (.ok given) => do
    carryOn value ((given.mark key).withAncestors s.ancestors)
    g.announce .prune node s.depth
  | .proceed value (.ok given) => do
    carryOn value ((given.mark key).withAncestors s.ancestors)
    let pulls ← g.lookUp node s.depth
    enter (·.push node)
    foldChildren visit pulls.each
    ofHost (← host pulls.ending)
    enter (·.withAncestors s.ancestors)
  | .proceed _ (.error given) | .prune _ (.error given) => giveUp (.stateless given)
  | .stray given => giveUp (.unsupported given)

/-- Folds a node and everything below it. -/
def foldNode : Nat → N → Folding N K S A V E W L Unit
  | 0, _ => throw .exhausted
  | fuel + 1, node => do
    let s := (← get).state
    note (.arrived node s)
    let key ← ofHost (g.identity node)
    if s.isSeen key then
      g.announce .skip node s.depth
    else
      if let some limit := g.limits.maxDepth then
        if limit < s.depth then
          g.announce .fail node s.depth
          giveUp (.tooDeep limit node s.path)
      g.heed (foldNode fuel) node key s (← g.ask node)

/-- Folds from a root. -/
def foldFrom (fuel : Nat) (root : N) (context : S) (value : A) (memory : W) (heard : L) :
    Except (Stop N V E) Unit × Account N K S A V E W L :=
  (g.foldNode fuel root).perform (.start context value memory heard)

end Setting

end GraphFold
