/-
GraphFold.Walk — the depth-first walk that folds a value over a graph.

Starting from a root, the walk visits every node whose key it has not seen,
asks an evaluator what to do with it, and folds the node's children strictly
left to right: the value left by the whole subtree of one child is the value
handed to the next.

It keeps an explicit stack of FRAMES, one per ancestor of the node at hand.
A frame holds the children still to come and the ancestors to put back when
they run out. Children may be produced lazily: each is PULLED only when the
subtrees of the earlier ones are folded, and a pull may fail. So may the ENDING
of a listing, which is what its producer does when it is asked for one child
too many.

Design decisions.

* One `step` either handles the pending node or moves to the next child; `run`
  repeats it on a budget. Running out of budget is an outcome of its own, so
  `finished` and `failed` always report the whole walk.
* Contexts and seen sets are threaded through the evaluator's answers. The path
  belongs to the walk: whatever ancestors an answer carries are replaced.
* Every arrival, call, lookup and event is written to a JOURNAL, newest first,
  which nothing reads during the walk.
* The host's computations fail with an `E`; the ways in which the walk itself
  gives up are the other constructors of `Failure`.

  §1 Setting    — what a walk is run on.
  §2 Configurations
  §3 Steps      — `arrive`, `respond`, `step`.
  §4 Runs       — `run`, `reduce`.
-/
import GraphFold.Evaluator
import GraphFold.Event

namespace GraphFold

/-! ## §1 Setting -/

/-- Produces one child when it is asked for. -/
abbrev Pull (W E : Type) : Type → Type := Action W E

/-- Children in order, and what is done when there are no more of them. -/
structure Pulls (W E N : Type) where
  each : List (Pull W E N)
  /-- Carried out once, when a child is asked for after the last one. -/
  ending : Action W E Unit

/-- Children that are there already: nothing is done to produce them, nor after them. -/
def Pulls.ofNodes {W E N : Type} (nodes : List N) : Pulls W E N := ⟨nodes.map pure, pure ()⟩

/-- What a children lookup gives: the children in order, or a failure that shows
only when they are first asked for. -/
abbrev Listing (W E N : Type) : Type := Except E (Pulls W E N)

/-- How deep a walk may go, and whether answers are checked before they are acted on. -/
structure Limits where
  /-- The greatest number of ancestors of a node that is evaluated; below zero not even a root
  is. -/
  maxDepth : Option Int
  checked : Bool
  deriving DecidableEq, Repr

/-- What a walk is run on: the key of a node, its children under a state, the
evaluator, the limits, and a listener if there is one. -/
structure Setting (N K S A V E W L : Type) [Ord K] where
  identity : N → Except E K
  children : N → State N K S → Action W E (Listing W E N)
  evaluator : Evaluator N K S A V E W
  limits : Limits
  listener : Option (Listener N L)

/-! ## §2 Configurations -/

/-- What is left of the listing of one ancestor, and the ancestors to put back at its end. -/
structure Frame (N E W : Type) where
  ancestors : List N
  pulls : Pulls W E N

/-- One thing that happened during a walk. -/
inductive Entry (N K S A V E : Type) [Ord K] where
  /-- The walk arrived at a node, in this state. -/
  | arrived (node : N) (state : State N K S)
  /-- The evaluator was called, and answered or failed. -/
  | called (node : N) (state : State N K S) (value : A) (answer : Except E (Answer N K S A V))
  /-- The children of a node were looked up under this state. Their number is given if there
  are any to be asked for: the lookup did not fail, and neither does the listing. -/
  | asked (node : N) (state : State N K S) (count : Option Nat)
  /-- A node was handled, or the walk ended at it. -/
  | handled (event : Event N)
  /-- The listener raised when it was told of the entry before this one. -/
  | listenerRaised

/-- Why a walk was given up. -/
inductive Failure (N V E : Type) where
  /-- The evaluator answered `fail`. -/
  | rejected (reason : V) (node : N) (path : List N)
  /-- An unseen node has more ancestors than the limit. -/
  | tooDeep (limit : Int) (node : N) (path : List N)
  /-- Under check: the answer is not an instruction. -/
  | notInstruction (given : V) (node : N)
  /-- Under check: the instruction carries something that is not a state. -/
  | notState (carrier : Carrier) (given : V)
  /-- Without check: the answer is not an instruction. -/
  | unsupported (given : V)
  /-- Without check: what the instruction carries cannot record a key. -/
  | stateless (given : V)
  /-- A computation of the host failed. -/
  | raised (error : E)

/-- A point of a walk. `pending` is the node arrived at, if it is not handled yet. -/
structure Config (N K S A V E W L : Type) [Ord K] where
  pending : Option N
  frames : List (Frame N E W)
  state : State N K S
  value : A
  evaluations : Nat
  /-- The memory of the host's computations. -/
  memory : W
  /-- The memory of the listener. -/
  heard : L
  /-- What happened so far, newest first. -/
  journal : List (Entry N K S A V E)

/-- What one step comes to. -/
inductive Progress (N K S A V E W L : Type) [Ord K] where
  | running (config : Config N K S A V E W L)
  | finished (config : Config N K S A V E W L)
  | failed (failure : Failure N V E) (config : Config N K S A V E W L)

/-- What a run on a budget comes to. -/
inductive Outcome (N K S A V E W L : Type) [Ord K] where
  | finished (config : Config N K S A V E W L)
  | failed (failure : Failure N V E) (config : Config N K S A V E W L)
  /-- The budget ran out at this point. -/
  | unfinished (config : Config N K S A V E W L)

variable {N K S A V E W L : Type} [Ord K]

/-- The malformed part of an answer, as the check names it. -/
def Answer.fault? (node : N) : Answer N K S A V → Option (Failure N V E)
  | .proceed _ (.error given) => some (.notState .proceed given)
  | .prune _ (.error given) => some (.notState .prune given)
  | .stray given => some (.notInstruction given node)
  | .proceed _ (.ok _) | .prune _ (.ok _) | .fail _ => none

namespace Config

/-- Writes an entry into the journal. -/
def note (c : Config N K S A V E W L) (entry : Entry N K S A V E) : Config N K S A V E W L :=
  { c with journal := entry :: c.journal }

/-- Reports how the node was handled: to the journal, and to the listener if there
is one. A listener that raises is noted and otherwise ignored. -/
def report (c : Config N K S A V E W L) (listener : Option (Listener N L)) (kind : EventKind)
    (node : N) (depth : Nat) : Config N K S A V E W L :=
  let event : Event N := ⟨kind, depth, node, c.evaluations⟩
  let noted := c.note (.handled event)
  match listener with
  | none => noted
  | some hear =>
    match hear event c.heard with
    | (false, heard) => { noted with heard := heard }
    | (true, heard) => { noted with heard := heard }.note .listenerRaised

end Config

/-! ## §3 Steps -/

namespace Setting

variable (g : Setting N K S A V E W L)

/-- Acts on a well-formed or malformed answer about `node`, whose key is `key`. -/
def act (node : N) (key : K) (c : Config N K S A V E W L) :
    Answer N K S A V → Progress N K S A V E W L
  | .proceed value (.ok given) =>
    let above := c.state.ancestors
    let depth := c.frames.length
    let marked := (given.mark key).withAncestors above
    let c := { c with value := value, state := marked }
    match (g.children node marked).perform c.memory with
    | (.error e, memory) =>
      .failed (.raised e) ({ c with memory := memory }.note (.asked node marked none))
    | (.ok (.error e), memory) =>
      let c := { c with memory := memory }.note (.asked node marked none)
      .failed (.raised e) (c.report g.listener .descend node depth)
    | (.ok (.ok pulls), memory) =>
      let c := { c with memory := memory }.note (.asked node marked (some pulls.each.length))
      let c := c.report g.listener .descend node depth
      .running { c with frames := ⟨above, pulls⟩ :: c.frames, state := marked.push node }
  | .prune value (.ok given) =>
    let c := { c with
      value := value, state := (given.mark key).withAncestors c.state.ancestors }
    .running (c.report g.listener .prune node c.frames.length)
  | .fail reason =>
    .failed (.rejected reason node c.state.path) (c.report g.listener .fail node c.frames.length)
  | .proceed _ (.error given) | .prune _ (.error given) => .failed (.stateless given) c
  | .stray given => .failed (.unsupported given) c

/-- Handles an answer: the check first, if it is asked for. -/
def respond (node : N) (key : K) (c : Config N K S A V E W L) (answer : Answer N K S A V) :
    Progress N K S A V E W L :=
  match if g.limits.checked then answer.fault? node else none with
  | some fault => .failed fault c
  | none => g.act node key c answer

/-- Evaluates a node that is unseen and within the limit. -/
def evaluate (node : N) (key : K) (c : Config N K S A V E W L) : Progress N K S A V E W L :=
  match (g.evaluator node c.state c.value).perform c.memory with
  | (answer, memory) =>
    let c := { c with memory := memory }.note (.called node c.state c.value answer)
    match answer with
    | .error e => .failed (.raised e) c
    | .ok answer => g.respond node key { c with evaluations := c.evaluations + 1 } answer

/-- Handles the node arrived at: seen before, too deep, or to be evaluated. -/
def arrive (node : N) (c : Config N K S A V E W L) : Progress N K S A V E W L :=
  let depth := c.frames.length
  let c := { c with pending := none }.note (.arrived node c.state)
  match g.identity node with
  | .error e => .failed (.raised e) c
  | .ok key =>
    if c.state.isSeen key then
      .running (c.report g.listener .skip node depth)
    else
      match g.limits.maxDepth with
      | some limit =>
        if limit < depth then
          .failed (.tooDeep limit node c.state.path) (c.report g.listener .fail node depth)
        else
          g.evaluate node key c
      | none => g.evaluate node key c

/-- One step: handles the pending node; else pulls the next child of the innermost
frame, or ends its listing and drops it; else the walk is over. -/
def step (c : Config N K S A V E W L) : Progress N K S A V E W L :=
  match c.pending with
  | some node => g.arrive node c
  | none =>
    match c.frames with
    | [] => .finished c
    | ⟨above, [], ending⟩ :: outer =>
      match ending.perform c.memory with
      | (.error e, memory) => .failed (.raised e) { c with memory := memory }
      | (.ok (), memory) =>
        .running { c with
          frames := outer, state := c.state.withAncestors above, memory := memory }
    | ⟨above, pull :: later, ending⟩ :: outer =>
      match pull.perform c.memory with
      | (.error e, memory) => .failed (.raised e) { c with memory := memory }
      | (.ok child, memory) =>
        .running { c with
          pending := some child, frames := ⟨above, later, ending⟩ :: outer, memory := memory }

/-! ## §4 Runs -/

/-- Repeats `step` until the walk ends, at most `budget` times. -/
def run : Nat → Config N K S A V E W L → Outcome N K S A V E W L
  | 0, c => .unfinished c
  | budget + 1, c =>
    match g.step c with
    | .running next => run budget next
    | .finished last => .finished last
    | .failed failure last => .failed failure last

end Setting

/-- The start of a walk: the root is pending, and nothing has been seen. -/
def Config.start (root : N) (context : S) (value : A) (memory : W) (heard : L) :
    Config N K S A V E W L :=
  ⟨some root, [], State.new context, value, 0, memory, heard, []⟩

/-- Folds from a root, on a budget of steps. -/
def Setting.reduce (g : Setting N K S A V E W L) (budget : Nat) (root : N) (context : S)
    (value : A) (memory : W) (heard : L) : Outcome N K S A V E W L :=
  g.run budget (Config.start root context value memory heard)

end GraphFold
