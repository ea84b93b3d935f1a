/-
GraphFold.Scene.Reduction — walks over the values of a scene, and the reports
on how they end.

Some value may stand in the place of a policy. A walk then asks it for what a
policy has, first for the limit and later whether answers are checked, and it
fails where the value has no such thing.

  §1 Walks   — `Scene.setting`, `Scene.reduce`.
  §2 Regimes — `Scene.regime`, `Scene.reduceUnder`.
  §3 Reports — the kind, message and, for a walk that was given up, the reason,
               node and path of a failure.
  §4 Records — what a walk writes to the log.
-/
import GraphFold.Policy
import GraphFold.Script

namespace GraphFold

open Index (Numeral)

variable {A : Type}

/-! ## §1 Walks -/

/-- An evaluator of values that folds an `A`. -/
abbrev FoldOver (A : Type) : Type := Evaluator Value Key Context A Value Fault Memory

/-- How a walk over values ends. -/
abbrev ValueOutcome (A : Type) : Type := Outcome Value Key Context A Value Fault Memory Heard

/-- A point of a walk over values. -/
abbrev ValueConfig (A : Type) : Type := Config Value Key Context A Value Fault Memory Heard

/-- Why a walk over values was given up. -/
abbrev ValueFailure : Type := Failure Value Value Fault

/-- The setting of a walk over the values of a scene. -/
def Scene.setting (scene : Scene) (registry : ValueRegistry) (limits : Limits)
    (evaluator : FoldOver A) (listener : Option (Listener Value Heard)) :
    Setting Value Key Context A Value Fault Memory Heard where
  identity := scene.identity
  children := scene.children registry
  evaluator := evaluator
  limits := limits
  listener := listener

/-- What a walk starts from. -/
structure Start (A : Type) where
  root : Value
  context : Context
  value : A

/-- The number of steps after which a walk is taken to have no end. -/
def stepBudget : Nat := 1000000000000000

/-- Walks from a start, on a budget of steps. -/
def Scene.reduce (scene : Scene) (registry : ValueRegistry) (limits : Limits)
    (evaluator : FoldOver A) (listener : Option (Listener Value Heard)) (budget : Nat)
    (start : Start A) (tracing : Bool) : ValueOutcome A :=
  (scene.setting registry limits evaluator listener).reduce budget start.root start.context
    start.value (Memory.start tracing) Heard.nothing

/-! ## §2 Regimes -/

/-- What a walk asks of whatever stands for its policy. -/
structure Regime where
  /-- The limit on the depth. -/
  maxDepth : Except Fault (Option Numeral)
  /-- Whether answers are checked. -/
  checked : Except Fault Bool

/-- What a walk asks of a policy is there. -/
def Policy.regime (p : Policy) : Regime := ⟨.ok p.maxDepth, .ok p.checked.isTrue⟩

/-- The limit a value comes to: none at all, or a number, with which depths can be compared. -/
def Value.limit (v : Value) : Except Fault (Option Numeral) :=
  match v, v.givenNumeral with
  | .none, _ => .ok Option.none
  | _, .ok n => .ok (some n)
  | _, .error cls => .error (.unordered ">" "int" cls)

namespace Scene

/-- What a walk asks of a value in a policy's place: attributes of the value. -/
def regime (scene : Scene) : GivenPolicy → Regime
  | .ok p => p.regime
  | .error v =>
    ⟨do (← scene.attributeOf v "max_depth").limit,
      (scene.attributeOf v "check_instructions").map Value.isTrue⟩

/-- Walks from a start under a regime. The limit is asked for when the root is known to be new,
and whether answers are checked after the first answer. -/
def reduceUnder (scene : Scene) (registry : ValueRegistry) (regime : Regime)
    (evaluator : FoldOver A) (listener : Option (Listener Value Heard)) (budget : Nat)
    (start : Start A) (tracing : Bool) : ValueOutcome A :=
  match regime.maxDepth, regime.checked with
  | .error fault, _ =>
    let first := match scene.identity start.root with
      | .error e => e
      | .ok _ => fault
    .failed (.raised first)
      (.start start.root start.context start.value (Memory.start tracing) Heard.nothing)
  | .ok limit, .ok checked =>
    scene.reduce registry ⟨limit.map Numeral.floor, checked⟩ evaluator listener budget start tracing
  | .ok limit, .error fault =>
    let answered : FoldOver A := fun node state value => do
      let _ ← evaluator node state value
      throw fault
    scene.reduce registry ⟨limit.map Numeral.floor, true⟩ answered listener budget start tracing

/-- Under the regime of a policy a walk has the limits of the policy. -/
theorem reduceUnder_regime (scene : Scene) (registry : ValueRegistry) (p : Policy)
    (evaluator : FoldOver A) (listener : Option (Listener Value Heard)) (budget : Nat)
    (start : Start A) (tracing : Bool) :
    scene.reduceUnder registry p.regime evaluator listener budget start tracing =
      scene.reduce registry p.limits evaluator listener budget start tracing := rfl

end Scene

/-! ## §3 Reports -/

/-- What is told of a walk that was given up: the reason, the node if it is known, and the
path above it. -/
structure Abort where
  reason : Value
  node : Value
  path : List Value

/-- The report on a failure. -/
structure ErrorReport where
  kind : ErrorKind
  message : String
  abort? : Option Abort

namespace ErrorReport

/-- A report of a kind with a message. -/
def plain (kind : ErrorKind) (message : String) : ErrorReport := ⟨kind, message, none⟩

/-- A report of a kind that has no message. -/
def silent (kind : ErrorKind) : ErrorReport := ⟨kind, "", none⟩

/-- The report on a walk that was given up. -/
def ofAbort (a : Abort) : ErrorReport :=
  ⟨.traversal, traversalMessage a.path.length a.reason.plain, some a⟩

/-- The report on a fault. One that gives up a walk knows neither node nor path. -/
def ofFault : Fault → ErrorReport
  | .thrown .traversal given => ofAbort ⟨given, .none, []⟩
  | fault => plain fault.kind fault.message

end ErrorReport

/-- The report on a policy that is not made. -/
def PolicyError.report : PolicyError → ErrorReport
  | .negative => .plain .value "max_depth must be >= 0"
  | .notNumber cls => .ofFault (.unordered "<" cls "int")

/-- The name of an instruction that carries a state. -/
def Carrier.instructionName : Carrier → String
  | .proceed => "Continue"
  | .prune => "Prune"

/-- The reason for giving up below a limit, which is shown as it was given. -/
def tooDeepReason (limit : String) : String := "maximum depth " ++ limit ++ " exceeded"

/-- The fault of an operation of states on a value that is none: it has no such operation, or it
has an attribute of that name, which is no function. -/
def Scene.strayOperation (scene : Scene) (given : Value) (operation : String) : Fault :=
  match scene.attributeOf given operation with
  | .ok v => .notCallable v.operandName
  | .error fault => fault

/-- The report on the end of a walk under a regime. -/
def Scene.report (scene : Scene) (regime : Regime) : ValueFailure → ErrorReport
  | .rejected reason node path => .ofAbort ⟨reason, node, path⟩
  | .tooDeep limit node path =>
    let shown := match regime.maxDepth with
      | .ok (some given) => given.text
      | _ => toString limit
    .ofAbort ⟨.text (tooDeepReason shown), node, path⟩
  | .notInstruction given node =>
    .plain .type
      ("evaluator must return Continue, Prune or Fail; got " ++ given.className ++ " for node " ++
        node.exact)
  | .notState carrier given =>
    .plain .type
      (carrier.instructionName ++ ".state must be a TraversalState; got " ++ given.className)
  | .unsupported given => .plain .type ("unsupported instruction " ++ given.className)
  | .stateless given => .ofFault (scene.strayOperation given "mark_seen")
  | .raised fault => .ofFault fault

/-! ## §4 Records -/

/-- The records of listeners that raised, oldest first. -/
def Config.raisedRecords (c : ValueConfig A) : List LogRecord :=
  c.journal.reverse.filterMap fun
    | .listenerRaised => some .listenerRaised
    | _ => none

/-- What a walk writes to the log before its last record, oldest first. -/
def Config.logRecords (c : ValueConfig A) : List LogRecord :=
  c.heard.records.reverse ++ c.raisedRecords

/-- The last record of a walk that failed: only one that was given up has one. -/
def ErrorReport.logRecords (r : ErrorReport) : List LogRecord :=
  match r.abort? with
  | some a => [.aborted a.path.length a.reason.plain]
  | none => []

/-- The last record of a walk that came to its end. -/
def Config.finishedRecord (c : ValueConfig A) : LogRecord :=
  .finished c.evaluations c.state.seenCount

end GraphFold
