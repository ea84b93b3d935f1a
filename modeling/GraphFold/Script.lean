/-
GraphFold.Script — evaluators and listeners given as data.

A script is a list of rules, a fold, or a guard around another script. Rules
are tried in order; the first whose condition holds decides: it works out a
value, then a state, and continues or prunes; or it fails, raises, or answers
with something else.

  §1 Conditions   — questions about a node, a state and a value.
  §2 Value steps  — how a value is worked out.
  §3 State steps  — how a state is worked out; a state may be set aside and
                    taken up again, and may be replaced by a stray value.
  §4 Scripts      — `Script.evaluator`.
  §5 Listeners    — which events a listener raises at.
-/
import GraphFold.Log
import GraphFold.Scene.Children

namespace GraphFold

open Index (Numeral)

/-! ## §1 Conditions -/

/-- A comparison of numbers. -/
inductive Comparison where
  | lt
  | le
  | eq
  | ge
  | gt
  deriving DecidableEq, Repr

namespace Comparison

/-- Whether a comparison holds of things in this order. -/
def accepts : Comparison → Ordering → Bool
  | lt, order => order.isLT
  | le, order => order.isLE
  | eq, order => order.isEq
  | ge, order => order.isGE
  | gt, order => order.isGT

end Comparison

/-- A comparison, or what comes of a sign that stands for none. -/
abbrev GivenComparison : Type := Except Fault Comparison

/-- How two values are ordered: numbers by size, texts by their characters, tuples and lists by their
first items that are not the same, or else by length. All other values are in no order, which is a
fault. -/
def Value.order? : Value → Value → Except Fault Ordering
  | .text s, .text t => .ok (compare s t)
  | .tuple vs, .tuple ws | .list vs, .list ws => byItems vs ws
  | v, w =>
    match v.numeral?, w.numeral? with
    | some m, some n => .ok (compare m n)
    | _, _ => .error (.unordered "<" v.operandName w.operandName)
where
  /-- By the first items that are not the same, or else by length. -/
  byItems : List Value → List Value → Except Fault Ordering
    | v :: vs, w :: ws => if v.same w then byItems vs ws else v.order? w
    | [], [] => .ok .eq
    | [], _ :: _ => .ok .lt
    | _ :: _, [] => .ok .gt

/-- The same of what is folded. What is undefined is in no order with any number, which is no
fault. -/
def Folded.order? : Folded → Value → Except Fault (Option Ordering)
  | .value v, w => (v.order? w).map some
  | .undefined, w =>
    if w.numeral?.isSome then .ok none
    else .error (.unordered "<" undefined.operandName w.operandName)

/-- Compares what is folded with a value. They have to be in an order, whatever the comparison is,
since all comparisons are made and one of them is chosen by its sign. -/
def GivenComparison.compare (op : GivenComparison) (folded : Folded) (bound : Value) :
    Except Fault Bool := do
  let order ← folded.order? bound
  return order.any (← op).accepts

/-- What a context is described by. -/
inductive ContextDescription where
  | plain (v : Value)
  | vertices (name : String)
  /-- Whatever goes by this name; a schema is meant. -/
  | named (name : String)
  | raises (fault : Fault)

/-- The context a description stands for. -/
def Scene.readContext (scene : Scene) : ContextDescription → Except Fault Context
  | .plain v => .ok (.plain v)
  | .vertices name => do return .vertices name (← scene.vertexGraph name)
  | .named name => do
    match ← scene.artefact name with
    | .schema s => return .schema s.name s.content
    | other => return .other (other.graphOwner.holding other.className)
  | .raises fault => .error fault

/-- A question about a node, the state, and the value folded so far. -/
inductive Condition where
  | always
  | label (among : List String)
  | className (among : List String)
  | depth (op : GivenComparison) (bound : Value)
  | seenCount (op : GivenComparison) (bound : Value)
  /-- Whether the node described here has been seen. -/
  | seen (node : Description)
  /-- There is a parent, and its label is among these. -/
  | parent (among : List String)
  /-- Some ancestor's label is among these. -/
  | onPath (among : List String)
  /-- The value, or its length if it is a tuple or a text, compared. -/
  | value (op : GivenComparison) (bound : Value)
  | context (among : List String)
  | not (c : Condition)
  | all (cs : List Condition)
  | any (cs : List Condition)
  /-- It cannot be asked. -/
  | raises (fault : Fault)

/-- What is compared of what is folded: the length of a tuple or text, else all of it. -/
def Folded.measure : Folded → Folded
  | .value (.tuple items) => .value (.int items.length)
  | .value (.text s) => .value (.int s.length)
  | folded => folded

/-- Whether a condition holds. Parts of a conjunction or disjunction that do not matter are
not asked. -/
def Scene.holds (scene : Scene) (node : Value) (s : ValueState) (value : Folded) :
    Condition → Except Fault Bool
  | .always => .ok true
  | .label among => .ok (among.contains node.label)
  | .className among => .ok (among.contains node.className)
  | .depth op bound => op.compare (.value (.int s.depth)) bound
  | .seenCount op bound => op.compare (.value (.int s.seenCount)) bound
  | .seen other => do scene.isSeen s (← scene.read other)
  | .parent among => .ok (s.parent?.any fun parent => among.contains parent.label)
  | .onPath among => .ok (s.ancestors.any fun above => among.contains above.label)
  | .value op bound => op.compare value.measure bound
  | .context among => .ok (among.contains s.context.label)
  | .not c => do return !(← scene.holds node s value c)
  | .all cs => allHold cs
  | .any cs => anyHolds cs
  | .raises fault => .error fault
where
  /-- Whether all conditions hold. -/
  allHold : List Condition → Except Fault Bool
    | [] => .ok true
    | c :: later => do if ← scene.holds node s value c then allHold later else return false
  /-- Whether some condition holds. -/
  anyHolds : List Condition → Except Fault Bool
    | [] => .ok false
    | c :: later => do if ← scene.holds node s value c then return true else anyHolds later

/-! ## §2 Value steps -/

/-- How the next value is worked out. -/
inductive ValueStep where
  | keep
  /-- Appends the node's label to a tuple. -/
  | label
  /-- Appends the number of ancestors to a tuple. -/
  | depth
  /-- Appends the labels of the path, joined by slashes, to a tuple. -/
  | path
  | set (value : Description)
  | add (n : Value)
  /-- Multiplies, then adds one. -/
  | scale (n : Value)
  | raises (fault : Fault)

/-- What the result of an operation on numbers is for a fold. -/
def Folded.ofResult : Except Numeral.ArithmeticError Numeral → Except Fault Folded
  | .ok n => .ok (.value (.ofNumeral n))
  | .error .undefined => .ok .undefined
  | .error .overflow => .error .overflow

namespace Value

/-- The length of a value that is a sequence: a text, a tuple or a list. -/
def length? : Value → Option Nat
  | text s => some s.length
  | tuple items | list items => some items.length
  | _ => Option.none

/-- The fault of a sum of a value and one of another class. -/
def sumFault (v : Value) (other : String) : Fault :=
  if v.length?.isSome then .concatenation v.className other
  else .operands "+" v.operandName other

/-- The sum of two values: of numbers, or of texts or lists, which are put one after the other. -/
def plus (v other : Value) : Except Fault Folded :=
  match v, other, v.numeral?, other.numeral? with
  | _, _, some m, some n => Folded.ofResult (m.plus? n)
  | text s, text t, _, _ => .ok (.value (.text (s ++ t)))
  | tuple items, tuple more, _, _ => .ok (.value (.tuple (items ++ more)))
  | list items, list more, _, _ => .ok (.value (.list (items ++ more)))
  | _, _, _, _ => .error (v.sumFault other.operandName)

/-- Whether a value is a text. -/
def isText : Value → Bool
  | text _ => true
  | _ => false

/-- Why a sequence cannot be repeated: the number of times does not fit, or the sequence would get
longer than the longest that fits the memory; the length of a text has to fit as a number, before
its items have to fit. -/
def repeatFault? (longest : Nat) (v : Value) (length : Nat) (n : Int) : Option Fault :=
  let product := length * n
  if !Index.Dtype.index.holds n then
    some .overflow
  else if product ≤ longest then
    Option.none
  else if v.isText && !Index.Dtype.index.holds product then
    some .overflow
  else
    some .tooLarge

/-- A number times as much, and one. A sequence can be repeated by an integer on either side, but not
be raised by one, and sequences cannot be multiplied by anything else. -/
def scaled (longest : Nat) (v other : Value) : Except Fault Folded :=
  match v.numeral?, other.numeral? with
  | some m, some n => Folded.ofResult ((m.times? n).bind (·.plus? (.int 1)))
  | _, _ =>
    match v.number?, other.number?, v.length?, other.length? with
    | _, some n, some length, _ =>
      .error ((v.repeatFault? longest length n).getD (v.sumFault "int"))
    | some n, _, _, some length =>
      .error ((other.repeatFault? longest length n).getD (other.sumFault "int"))
    | _, _, some _, _ => .error (.repetition other.operandName)
    | _, _, .none, some _ => .error (.repetition v.operandName)
    | _, _, .none, .none => .error (.operands "*" v.operandName other.operandName)

end Value

namespace Folded

/-- An operation on what is undefined comes to the same again, if the other operand is a number that
fits; without one it has this fault. -/
def stayUndefined (other : Value) (fault : Fault) : Except Fault Folded :=
  match other.numeral? with
  | some n => if n.toFloat?.isSome then .ok undefined else .error .overflow
  | none => .error fault

/-- The sum of what is folded and a value. -/
def plus : Folded → Value → Except Fault Folded
  | value v, other => v.plus other
  | undefined, other =>
    stayUndefined other (.operands "+" undefined.operandName other.operandName)

/-- What is folded times as much as a value, and one. -/
def scaled (longest : Nat) : Folded → Value → Except Fault Folded
  | value v, other => v.scaled longest other
  | undefined, other =>
    stayUndefined other <|
      if other.length?.isSome then .repetition undefined.operandName
      else .operands "*" undefined.operandName other.operandName

/-- A tuple with one more item. -/
def append (folded : Folded) (item : Value) : Except Fault Folded := folded.plus (.tuple [item])

end Folded

/-- The next value. A fold works without a state, and cannot ask for its parts. -/
def Scene.advance (scene : Scene) (node : Value) (s : Option ValueState) (value : Folded) :
    ValueStep → Except Fault Folded
  | .keep => .ok value
  | .label => value.append (.text node.label)
  | .depth =>
    match s with
    | some s => value.append (.int s.depth)
    | none => .error .lacking
  | .path =>
    match s with
    | some s => value.append (.text ("/".intercalate (pathLabels s)))
    | none => .error .lacking
  | .set description => return .value (← scene.read description)
  | .add n => value.plus n
  | .scale n => value.scaled scene.longest n
  | .raises fault => .error fault

/-! ## §3 State steps -/

/-- How the next state is worked out. -/
inductive StateStep where
  | context (c : ContextDescription)
  | mark (node : Description)
  | push (node : Description)
  | path (nodes : List Description)
  /-- A state in which nothing has been seen. -/
  | fresh (c : ContextDescription)
  /-- Sets the state aside under a name, which may be any value. -/
  | stash (name : Value)
  /-- Takes up the state set aside under a name, if there is one. -/
  | restore (name : Value)
  /-- Puts a stray value in the place of the state. -/
  | stray (v : Description)
  | raises (fault : Fault)

/-- A state, or a stray value in its place. -/
abbrev GivenState : Type := Except Value ValueState

/-- An operation of states on what is given for one and on what the operation needs. A stray value
has no such operation, or an attribute of its name, which is no function; that shows when all it
needs is there. -/
def Scene.operate {α : Type} (scene : Scene) (given : GivenState) (operation : String)
    (operand : Except Fault α) (change : ValueState → α → Except Fault ValueState) :
    Except Fault GivenState :=
  match given with
  | .ok s => do return .ok (← change s (← operand))
  | .error v => do
    let attached ← scene.attributeOf v operation
    let _ ← operand
    throw (.notCallable attached.operandName)

/-- The code of a name under which a state is set aside. -/
def stashCode (name : Value) : Except Fault (List Int) :=
  match name.unhashablePart? with
  | some cls => .error (.unhashableKey cls)
  | none => .ok name.code

/-- Works out the next state. -/
def Scene.alter (scene : Scene) (given : GivenState) : StateStep → SceneAction GivenState
  | .context c => Action.ofExcept <|
    scene.operate given "with_schema" (scene.readContext c) fun s context =>
      .ok (s.withContext context)
  | .mark node => Action.ofExcept <|
    scene.operate given "mark_seen" (scene.read node) scene.mark
  | .push node => Action.ofExcept <|
    scene.operate given "push_path" (scene.read node) fun s node => .ok (s.push node)
  | .path nodes => Action.ofExcept <|
    scene.operate given "with_path" (Scene.read.readAll scene nodes) fun s nodes =>
      .ok (s.withPath nodes)
  | .fresh c => Action.ofExcept do return .ok (State.new (← scene.readContext c))
  | .stash name => do
    let name ← Action.ofExcept (stashCode name)
    Action.write fun m => { m with stashed := m.stashed.insert name given }
    return given
  | .restore name => do
    return ((← get).stashed.find? (← Action.ofExcept (stashCode name))).getD given
  | .stray v => Action.ofExcept do return .error (← scene.read v)
  | .raises fault => throw fault

/-- Works out a state by steps, one after the other. -/
def Scene.alterAll (scene : Scene) : GivenState → List StateStep → SceneAction GivenState
  | given, [] => return given
  | given, step :: later => do scene.alterAll (← scene.alter given step) later

/-! ## §4 Scripts -/

/-- What a rule decides. -/
inductive Decision where
  | proceed (value : ValueStep) (state : List StateStep)
  | prune (value : ValueStep) (state : List StateStep)
  | fail (reason : Description)
  | raises (fault : Fault)
  /-- Answers with a value that is not an instruction. -/
  | answers (given : Description)

/-- A decision, and the condition under which it is taken. -/
structure Rule where
  condition : Condition
  decision : Decision

/-- An evaluator as data. -/
inductive Script where
  | rules (rules : List Rule)
  | fold (step : ValueStep) (prune : Option Condition)
  /-- Each check has a message, which is the reason for failing where it holds; the value `none` is
  no reason. -/
  | guard (inner : Script) (checks : List (Condition × Value))
  /-- A value of this class in an evaluator's place, which cannot be called. -/
  | stray (cls : String)

/-- The answers of scripts. -/
abbrev ValueAnswer : Type := Answer Value Key Context Folded Value

/-- The evaluators that scripts describe. -/
abbrev ValueEvaluator : Type := Evaluator Value Key Context Folded Value Fault Memory

namespace Scene

/-- Carries a decision out: the value first, then the state. -/
def decide (scene : Scene) (node : Value) (s : ValueState) (value : Folded) :
    Decision → SceneAction ValueAnswer
  | .proceed step changes => do
    let next ← Action.ofExcept (scene.advance node (some s) value step)
    return .proceed next (← scene.alterAll (.ok s) changes)
  | .prune step changes => do
    let next ← Action.ofExcept (scene.advance node (some s) value step)
    return .prune next (← scene.alterAll (.ok s) changes)
  | .fail reason => return .fail (← Action.ofExcept (scene.read reason))
  | .raises fault => throw fault
  | .answers given => return .stray (← Action.ofExcept (scene.read given))

/-- The decision of the first rule whose condition holds; without one, the walk goes on
with the value and state it has. -/
def decision (scene : Scene) (node : Value) (s : ValueState) (value : Folded) :
    List Rule → Except Fault Decision
  | [] => .ok (.proceed .keep [])
  | rule :: later => do
    if ← scene.holds node s value rule.condition then
      return rule.decision
    else
      scene.decision node s value later

/-- The message of the first check that holds, or `none`. -/
def complaint (scene : Scene) (node : Value) (s : ValueState) :
    List (Condition × Value) → Except Fault Value
  | [] => .ok .none
  | (condition, message) :: later => do
    if ← scene.holds node s (.value (.int 0)) condition then
      return message
    else
      scene.complaint node s later

/-- The step of a scripted fold. -/
def foldStep (scene : Scene) (step : ValueStep) (node : Value) (value : Folded) :
    SceneAction Folded := do
  record fun _ => pure (.step node.label value)
  Action.ofExcept (scene.advance node none value step)

/-- The predicate by which a scripted fold leaves children out. -/
def foldPrune (scene : Scene) (condition : Condition) (node : Value) (s : ValueState) :
    SceneAction Bool := do
  let holds ← Action.ofExcept (scene.holds node s (.value (.int 0)) condition)
  record fun _ => pure (.prune node.label holds)
  return holds

/-- The check of a scripted guard; its message becomes the reason. -/
def guardCheck (scene : Scene) (checks : List (Condition × Value)) (node : Value)
    (s : ValueState) : SceneAction (Option Value) := do
  let message ← Action.ofExcept (scene.complaint node s checks)
  record fun _ => pure (.check node.label message)
  return match message with
    | .none => none
    | reason => some reason

/-- The evaluator a script describes. -/
def evaluator (scene : Scene) : Script → ValueEvaluator
  | .rules rules => fun node s value => do
    record fun _ => pure (.eval node.label s.depth (pathLabels s) s.seenCount value)
    scene.decide node s value (← Action.ofExcept (scene.decision node s value rules))
  | .fold step prune => .ofFold (scene.foldStep step) (prune.map scene.foldPrune)
  | .guard inner checks => (scene.evaluator inner).guard (scene.guardCheck checks)
  | .stray cls => fun _ _ _ => throw (.notCallable cls)

end Scene

/-! ## §5 Listeners -/

/-- What a listener does with the events it hears. -/
inductive ListenerScript where
  /-- Keeps them. -/
  | record
  /-- Keeps them, and raises at every one. -/
  | raise
  /-- Keeps them, and raises at those of these kinds. -/
  | raiseAt (kinds : List EventKind)
  /-- Writes each to the log. -/
  | log

/-- What a listener has heard and written, newest first. -/
structure Heard where
  events : List (Event Value)
  records : List LogRecord

/-- The memory of a listener that has heard nothing. -/
def Heard.nothing : Heard := ⟨[], []⟩

/-- The log record of an event. -/
def Event.logRecord (e : Event Value) : LogRecord :=
  .ofEvent LogRecord.debugLevel LogRecord.eventLogger e.kind.word e.depth e.evaluations
    e.node.exact

/-- The listener a script describes. -/
def ListenerScript.listener : ListenerScript → Listener Value Heard
  | record => fun e heard => (false, { heard with events := e :: heard.events })
  | raise => fun e heard => (true, { heard with events := e :: heard.events })
  | raiseAt kinds => fun e heard =>
    (kinds.contains e.kind, { heard with events := e :: heard.events })
  | log => fun e heard => (false, { heard with records := e.logRecord :: heard.records })

end GraphFold
