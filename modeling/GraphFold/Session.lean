/-
GraphFold.Session — carrying out the steps of a session.

A session holds a scene, a registry and a default policy. Each step reads what
it is given, in the order in which it is written, and the first failure is its
result. Nothing but a step that succeeds changes the session.

  §1 Sessions
  §2 Errors     — how the errors of the parts are reported.
  §3 Reading    — arguments of steps.
  §4 States and nodes
  §5 Registry and policies
  §6 Schemas and syntax trees
  §7 Trees and graphs
  §8 Walks
  §9 Steps      — `Session.perform`.
-/
import GraphFold.Index.Inference
import GraphFold.Session.Reply
import GraphFold.SyntaxTree.Census

namespace GraphFold

open Index (GivenNumeral Given)

/-! ## §1 Sessions -/

/-- What a session holds. -/
structure Session where
  scene : Scene
  registry : ValueRegistry
  /-- The default policy, if one is set. -/
  fallback : Option GivenPolicy
  /-- What fits the memory. It stays as it is. -/
  capacity : Capacity

/-- A session at its start: the standard registry, and no default policy. -/
def Session.start (scene : Scene) (capacity : Capacity) : Session :=
  ⟨scene, .standard, none, capacity⟩

/-- Something that comes to an `α` or to the report on an error. -/
abbrev Reported (α : Type) : Type := Except ErrorReport α

/-! ## §2 Errors -/

/-- Reports the fault of a reading. -/
def orFault {α : Type} (r : Except Fault α) : Reported α := r.mapError .ofFault

/-- The kind of a report on data that does not become an array. -/
def Index.ConversionError.kind : Index.ConversionError → ErrorKind
  | .store (.notNumber _) | .store (.stray _ _) | .untyped _ => .type
  | .store .overflow => .overflow
  | .packed _ _ => .layout
  | _ => .value

/-- The report on data that does not become an array. -/
def Index.ConversionError.report (e : Index.ConversionError) : ErrorReport :=
  match e.message? with
  | some message => .plain e.kind message
  | none => .silent e.kind

/-- The kind of a report on a name that stands for no element type. -/
def Index.DtypeNameError.kind : Index.DtypeNameError → ErrorKind
  | .extent _ => .expression
  | .overflow => .overflow
  | .notEntry => .value
  | e => if e.isFinal then .value else .type

/-- The report on a name that stands for no element type. -/
def Index.DtypeNameError.report (e : Index.DtypeNameError) : ErrorReport :=
  match e.message? with
  | some message => .plain e.kind message
  | none => .silent e.kind

/-- The report on data that does not become an array of a type of its own. -/
def Index.InferenceError.report : Index.InferenceError → ErrorReport
  | .name e => e.report
  | .conversion e => e.report
  | .apart types =>
    .plain .promotion
      ("Input dtypes (" ++ ", ".intercalate (types.map fun d => Text.quoted d.name) ++
        ") have no available implicit dtype promotion path.")

/-- The report on a tree that is not made. -/
def TreeBuildError.report : TreeBuildError → ErrorReport
  | .missing parts =>
    .plain .value ("topology is missing required fields: " ++ ", ".intercalate parts)
  | .conversion e => e.report
  | .notBuffers => .silent .array
  | .tree e => .plain .value e.message

/-- The report on a graph that is not made. -/
def GraphBuildError.report : GraphBuildError → ErrorReport
  | .missing => .silent .lacking
  | .conversion e => e.report
  | .notBuffers => .silent .array
  | .notEdges => .silent .argument
  | .notCount cls => .plain .type ("'" ++ cls ++ "' object cannot be interpreted as an integer")
  | .graph e =>
    match e.message? with
    | some message => .plain .value message
    | none => if e = .tooLarge then .ofFault .tooLarge else .silent .overflow

/-- The report on an argument of a wrong type. -/
def wrongArgument : ErrorReport := .silent .argument

/-- The report on a value that lacks what is asked of it. -/
def lacking : ErrorReport := .silent .lacking

/-- The report on a logger that gets no threshold. -/
def ThresholdError.report : ThresholdError → ErrorReport
  | .unknownName s => .plain .value ("Unknown level: " ++ Text.quoted s)
  | .notLevel shown => .plain .type ("Level not an integer or a valid string: " ++ shown)

/-- The report on a tag that stands for no class. -/
def NodeClass.TagError.report : NodeClass.TagError → ErrorReport
  | .unknown tag => .ofFault (.unknownName tag)
  | .unknownSyntax => lacking

/-- The report on a refusal of the registry. -/
def RegistryError.report (e : RegistryError NodeClass) : ErrorReport :=
  .plain .value (e.message NodeClass.qualifiedName)

/-! ## §3 Reading -/

namespace Session

variable (σ : Session)

/-- Reads a value. -/
def value (d : Description) : Reported Value := orFault (σ.scene.read d)

/-- Reads values. -/
def values (ds : List Description) : Reported (List Value) :=
  orFault (Scene.read.readAll σ.scene ds)

/-- Reads a context. -/
def context (d : ContextDescription) : Reported Context := orFault (σ.scene.readContext d)

/-- The state of a name, and what tells it apart from others. -/
def ownedState (name : String) : Reported (Owner ValueState) := orFault (σ.scene.state name)

/-- The state of a name. -/
def state (name : String) : Reported ValueState := return (← σ.ownedState name).content

/-- Reads a policy; the value `none` is no policy. -/
def policy? : PolicyDescription → Reported (Option GivenPolicy)
  | .absent => return none
  | .fields maxDepth checked description =>
    match Policy.make? maxDepth checked description with
    | .ok p => return some (.ok p)
    | .error e => throw e.report
  | .stray d => do
    match ← σ.value d with
    | .none => return none
    | v => return some (.error v)

/-- The policy in force where this one is given, or a stray value in its place. -/
def inForce (given : Option GivenPolicy) : GivenPolicy := .inForce given σ.fallback

/-- The session in which a thing has a name. -/
def bind (name : String) (a : Artefact) : Session := { σ with scene := σ.scene.bind name a }

/-- The session in which a new thing of some kind has a name. -/
def add {α : Type} (kind : Owner α → Artefact) (name : String) (content : α) : Session :=
  { σ with scene := σ.scene.add kind name content }

/-- The thing of a name. -/
def artefact (name : String) : Reported Artefact := orFault (σ.scene.artefact name)

/-- The session in which a new state has a name, and the report on the state. -/
def keep (name : String) (s : ValueState) : Session × Reply :=
  (σ.add .state name s, .state (.of s))

/-- The session in which a node has been seen in a state as well, and the report on that state. If
it had been seen before, the state itself gets another name. -/
def keepMarked (name : String) (s : Owner ValueState) (node : Value) :
    Reported (Session × Reply) := do
  if ← orFault (σ.scene.isSeen s.content node) then
    return (σ.bind name (.state { s with name }), .state (.of s.content))
  else
    return σ.keep name (← orFault (σ.scene.mark s.content node))

/-! ## §4 States and nodes -/

/-- The labels of the children a lookup lists, all of them asked for. -/
def listed (lookup : SceneAction ValueListing) : Reported (List String) :=
  orFault ((labels.perform (Memory.start false)).1)
where
  /-- Looks the children up, pulls each of them, and ends their listing. -/
  labels : SceneAction (List String) := do
    let pulls ← Action.ofExcept (← lookup)
    let labels ← pulls.each.mapM fun pull => return (← pull).label
    pulls.ending
    return labels

/-- The children a node lists itself, as labels. -/
def ownLabels (node : Value) (s : ValueState) : Reported (List String) :=
  listed (σ.scene.ownChildren node s)

/-- The children of a node under whatever stands for a state. What is none has no context, and
anything else is not asked of it. -/
def childrenUnder (under : Artefact) (node : Value) : Reported (List String) :=
  match under with
  | .state s => listed (σ.scene.children σ.registry node s.content)
  | _ =>
    if Scene.readsContext σ.registry node then
      throw lacking
    else
      listed (σ.scene.children σ.registry node (State.new (.plain .none)))

/-- Whether a thing of a name holds a node: a state if it has seen the node; a schema is asked for
types by number, and has none. -/
def holds (thing : Artefact) (node : Value) : Reported Bool :=
  match thing with
  | .state s => orFault (σ.scene.isSeen s.content node)
  | .schema _ => throw (.ofFault (.schema (.unknownType "0")))
  | other => throw (.ofFault (.notContainer other.className))

/-- An answer that was given: with a thing of the session for its state, or with a reason. -/
inductive GivenAnswer where
  | carrying (carrier : Carrier) (value : Value) (thing : Artefact)
  | fail (reason : Value)

/-- Reads an answer. -/
def answer : AnswerDescription → Reported GivenAnswer
  | .carrying carrier value name => do
    return .carrying carrier (← σ.value value) (← σ.artefact name)
  | .fail reason => return .fail (← σ.value reason)

/-- Whether two answers are of one kind and agree in their parts. -/
def GivenAnswer.same : GivenAnswer → GivenAnswer → Bool
  | .carrying c x s, .carrying d y t => c == d && x.same y && s.same t
  | .fail x, .fail y => x.same y
  | _, _ => false

/-- The report on an answer. A stray value has none of the parts of an instruction, and one that
is carried in place of a state none of the parts of a state. -/
def reportAnswer : ValueAnswer → Reported AnswerReport
  | .proceed value (.ok s) => return .carrying .proceed value (.of s)
  | .prune value (.ok s) => return .carrying .prune value (.of s)
  | .fail reason => return .fail reason
  | .stray _ | .proceed _ (.error _) | .prune _ (.error _) => throw lacking

/-- The evaluator of a script; nothing if a value stands in its place. -/
def evaluator? : Script → Option ValueEvaluator
  | .stray _ => none
  | s => some (σ.scene.evaluator s)

/-! ## §5 Registry and policies -/

/-- The report on something that is to be registered and is no class. -/
def notClass : ErrorReport := .plain .value "node_type must be a class"

/-- The report on something that is not registered, with the name it goes by. -/
def notRegistered (name : String) : ErrorReport :=
  .plain .value ((RegistryError.notRegistered name).message id)

/-- What a key of the registry stands for. -/
inductive Registrant where
  | tagged (t : NodeClass.Tagged)
  | value (v : Value)

/-- The class among the things a key may stand for. -/
def Registrant.class? : Registrant → Option NodeClass
  | .tagged (.cls c) => some c
  | _ => none

/-- Reads a key. -/
def registrant (scene : Scene) : RegistrationKey → Reported Registrant
  | .stray d => (orFault (scene.read d)).map .value
  | .tagged tag => ((NodeClass.Tagged.ofTag? scene.classes tag).mapError NodeClass.TagError.report).map .tagged

/-- Takes a registry in place of the old one, unless it is refused. -/
def withRegistry (r : Except (RegistryError NodeClass) ValueRegistry) : Reported Session :=
  (r.mapError RegistryError.report).map fun registry => { σ with registry := registry }

/-- Registers an adapter under a key, which has to be a class. -/
def register (key : RegistrationKey) (adapter : Option Adapter) (overwrite : Bool) :
    Reported Session := do
  match (← registrant σ.scene key).class? with
  | some c => σ.withRegistry (Registry.register σ.registry c adapter overwrite)
  | none => throw notClass

/-- Drops the registration of a key. What is no class is never registered: a function is reported by
its name, and a value by the name it is given in an attribute, if it has one. -/
def unregister (key : RegistrationKey) : Reported Session := do
  match ← registrant σ.scene key with
  | .value v =>
    match v.unhashablePart? with
    | some cls => throw (.ofFault (.unhashableKey cls))
    | none => throw (notRegistered (← orFault (σ.scene.attributeOf v "__qualname__")).plain)
  | .tagged (.function name) => throw (notRegistered name)
  | .tagged (.constant (some cls)) => throw (.ofFault (.unhashableKey cls))
  | .tagged (.constant none) => throw lacking
  | .tagged (.cls c) => σ.withRegistry (Registry.unregister σ.registry c)

/-- A policy whose fields are reported; of a value in its place the attributes are. -/
def reportPolicy : GivenPolicy → Reported Reply
  | .ok p => return .policy (.of p)
  | .error v => orFault do
    let maxDepth ← σ.scene.attributeOf v "max_depth"
    let checked ← σ.scene.attributeOf v "check_instructions"
    let description ← σ.scene.attributeOf v "description"
    return .policy ⟨maxDepth, checked, description⟩

/-! ## §6 Schemas and syntax trees -/

/-- The labels of the fields of a type: of an object type, or of any value with an attribute for
them. -/
def fieldLabels (type : Value) : Reported (List String) :=
  match type with
  | .objectType t => return t.fields.map FieldDefinition.label
  | type =>
    match σ.scene.attributeOf type "fields" with
    | .ok fields => listed (pure fields.items)
    | .error .lacking => return []
    | .error fault => throw (.ofFault fault)

/-- The types of a schema as they are reported. -/
def typeRows (s : Schema) : Reported (List (String × String × List String)) :=
  s.types.entries.mapM fun (name, type) => return (name, type.label, ← σ.fieldLabels type)

/-- The session in which a new schema has a name, and the report on it. -/
def keepSchema (name : String) (s : Schema) : Reported (Session × Reply) := do
  return (σ.add .schema name s, .types (← σ.typeRows s))

/-- The report on a thing of the session. -/
def reportThing : Artefact → Reported Reply
  | .state s => return .state (.of s.content)
  | .tree t => return .tree t.content
  | .graph g => return .graph g.content
  | .schema s => return .types (← σ.typeRows s.content)

/-- The schema expected for an analysis. -/
def schemaArgument : SchemaDescription → Reported (String × Schema)
  | .named name => do
    match ← orFault (σ.scene.artefact name) with
    | .schema s => return (s.name, s.content)
    | _ => throw wrongArgument
  | .stray d => do
    let _ ← σ.value d
    throw wrongArgument

/-- What a walk without a policy of its own works under. -/
def terms : Terms := ⟨σ.registry, σ.inForce none, stepBudget⟩

/-- An analysis of a schema from a root. -/
def analyse (analysis : Scene → Terms → String → Schema → String → Reported (List String))
    (schema : SchemaDescription) (root : Option String) : Reported Reply := do
  let (name, s) ← σ.schemaArgument schema
  match root with
  | none => throw wrongArgument
  | some root => return .texts (← analysis σ.scene σ.terms name s root)

/-- Counts the classes of the nodes reachable from a syntax node. -/
def countFrom (node : Value) : Reported Reply :=
  match node with
  | .syntaxNode _ => do
    let tally ← σ.scene.collected σ.terms (σ.scene.tally σ.terms Tally.raise none node)
    return .tally tally.entries
  | _ => throw wrongArgument

/-! ## §7 Trees and graphs -/

/-- The report on a value that names no element type. A list or mapping stands for a record, which is
empty or has parts that are no fields. -/
def wrongType : Value → ErrorReport
  | .list [] => Index.DtypeNameError.report (.foreign (Value.list []).exact)
  | .list (item :: _) => Index.DtypeNameError.report (.notField item.exact)
  | .mapping [] => Index.DtypeNameError.report (.foreign (Value.mapping []).exact)
  | .mapping ((_, entry) :: _) =>
    match entry with
    | .text _ | .list _ | .mapping _ => Index.DtypeNameError.report .notEntry
    | v => .ofFault (.unsized v.operandName)
  | v => Index.DtypeNameError.report (.notName v.exact)

/-- What is handed over for a buffer. The element type has to be known, if one is given. -/
def given : BufferDescription → Reported Given
  | .plain => return .plain
  | .array .none data =>
    return .array (← (Index.convertOwn? data).mapError Index.InferenceError.report)
  | .array (.text name) data => do
    let dtype ← (Index.Dtype.ofName? name).mapError Index.DtypeNameError.report
    return .array (← (Index.convert? dtype data).mapError Index.ConversionError.report)
  | .array type _ => throw (wrongType type)

/-- Makes a tree. -/
def makeTree : TreeSource → Reported ArrayTree
  | .buffers parent left right => do
    let parent ← given parent
    let left ← given left
    let right ← given right
    (ArrayTree.ofGiven? parent left right).mapError TreeBuildError.report
  | .parts p => (ArrayTree.ofParts? p).mapError TreeBuildError.report
  | .rooted p => do
    let t ← (ArrayTree.ofParts? p).mapError TreeBuildError.report
    match t.root? with
    | some _ => return t
    | none => throw (.ofFault .noRoot)

/-- Makes a graph. -/
def makeGraph (capacity : Capacity) : GraphSource → Reported CompressedGraph
  | .edges size edges =>
    (CompressedGraph.ofPairs? capacity size edges).mapError GraphBuildError.report
  | .buffers offsets targets => do
    let offsets ← given offsets
    let targets ← given targets
    (CompressedGraph.ofGiven? offsets targets).mapError GraphBuildError.report
  | .parts offsets targets =>
    (CompressedGraph.ofParts? offsets targets).mapError GraphBuildError.report
  | .chain size => (CompressedGraph.ofChain? capacity size).mapError GraphBuildError.report

/-! ## §8 Walks -/

/-- A walk whose arguments have been read and found to be of the right types. -/
structure Walk where
  start : Start Folded
  evaluator : ValueEvaluator
  policy : GivenPolicy
  listener : Option (Listener Value Heard)

/-- Reads what stands in a listener's place: a listener or none, or nothing at all if it is
of a wrong type. -/
def listener? : ListenerDescription → Reported (Option (Option (Listener Value Heard)))
  | .absent => return some none
  | .script s => return some (some s.listener)
  | .stray d => do
    match ← σ.value d with
    | .none => return some none
    | _ => return none

/-- Reads the arguments of a walk in order; only then their types are checked. -/
def prepare (w : WalkDescription) : Reported Walk := do
  let root ← σ.value w.root
  let context ← σ.context w.context
  let init ← σ.value w.init
  let evaluator := σ.evaluator? w.evaluator
  let policy ← σ.policy? w.policy
  let listener ← σ.listener? w.listener
  match evaluator, policy, listener with
  | none, _, _ | _, some (.error _), _ | _, _, none => throw wrongArgument
  | some evaluator, policy, some listener =>
    return ⟨⟨root, context, .value init⟩, evaluator, σ.inForce policy, listener⟩

/-- What was observed during a walk that stopped here, with its last records. -/
def observe (w : WalkDescription) (c : ValueConfig Folded) (last : List LogRecord) : Observed where
  trace := if w.tracing then some c.memory.entries else none
  events := events? w.listener c.heard.events.reverse
  records := c.logRecords ++ last
where
  /-- The events, if there is something in the listener's place. -/
  events? : ListenerDescription → List (Event Value) → Option (List (Event Value))
    | .absent, _ => none
    | _, events => some events

/-- What was observed of a walk that did not come about. -/
def observeNothing (w : WalkDescription) : Observed where
  trace := if w.tracing then some [] else none
  events := observe.events? w.listener []
  records := []

/-- Walks, and reports the end by `reply`. -/
def walk (w : WalkDescription) (reply : ValueConfig Folded → Reply) : StepReport :=
  match σ.prepare w with
  | .error e => ⟨.error e, some (observeNothing w)⟩
  | .ok ready =>
    let regime := σ.scene.regime ready.policy
    match σ.scene.reduceUnder σ.registry regime ready.evaluator ready.listener stepBudget
      ready.start w.tracing with
    | .finished c => ⟨.ok (reply c), some (observe w c [c.finishedRecord])⟩
    | .failed failure c =>
      let e := σ.scene.report regime failure
      ⟨.error e, some (observe w c e.logRecords)⟩
    | .unfinished c => ⟨.error (.silent .runtime), some (observe w c [])⟩

/-- The record of an event that is asked for, if its logger writes it. Depth and count are shown as
integers, when it is written. -/
def recordOf (r : LogRequest) : Reported (List LogRecord) := do
  let node ← σ.value r.node
  let logger ← match r.logger.isTrue, r.logger with
    | false, _ => pure LogRecord.eventLogger
    | true, .text name => pure name
    | true, _ => throw (.plain .type "A logger name must be a string")
  let threshold ← r.threshold.level?.mapError ThresholdError.report
  let level ← match r.level with
    | .ok (.real _) | .error _ => throw (.plain .type "level must be an integer")
    | .ok n => pure n
  if (LogRecord.mk level logger "").passes threshold then
    let depth ← shown r.depth
    let evaluations ← shown r.evaluations
    return [.ofEvent level logger r.kind.plain depth evaluations node.exact]
  else
    return []
where
  /-- The integer that is shown of a number. -/
  shown : GivenNumeral → Reported Int
    | .ok n =>
      if n.side ≠ 0 then throw (.ofFault .overflow)
      else return n.toInt
    | .error cls => throw (.ofFault (.notShownAsNumber cls))

/-! ## §9 Steps -/

/-- Carries out a step that is not a walk: the session after it, and the reply. -/
def carryOut : Step → Reported (Session × Reply)
  | .newState c name => do return σ.keep name (State.new (← σ.context c))
  | .mark s node name => do
    let s ← σ.ownedState s
    σ.keepMarked name s (← σ.value node)
  | .push s node name => do
    let s ← σ.state s
    return σ.keep name (s.push (← σ.value node))
  | .withPath s nodes name => do
    let s ← σ.state s
    return σ.keep name (s.withPath (← σ.values nodes))
  | .withContext s c name => do
    let s ← σ.state s
    return σ.keep name (s.withContext (← σ.context c))
  | .withAncestors s other name => do
    let s ← σ.state s
    return σ.keep name (s.withAncestors (← σ.state other).ancestors)
  | .dump name => do return (σ, ← σ.reportThing (← σ.artefact name))
  | .isSeen s node => do
    let s ← σ.state s
    return (σ, .flag (← orFault (σ.scene.isSeen s (← σ.value node))))
  | .contains name node => do
    let node ← σ.value node
    return (σ, .flag (← σ.holds (← σ.artefact name) node))
  | .sameThings a b => do return (σ, .flag ((← σ.artefact a).same (← σ.artefact b)))
  | .visited s => do return (σ, .number (← σ.state s).seenCount)
  | .identity node => do return (σ, .text (← orFault (σ.scene.key (← σ.value node))).label)
  | .sameNodes a b => do
    let same := (← σ.value a).same (← σ.value b)
    return (σ, .flags [same, !same])
  | .exactForm node => do return (σ, .text (← σ.value node).exact)
  | .isTraversable node => do
    return (σ, .flag (Scene.isTraversable σ.registry (← σ.value node)))
  | .children node under => do
    let under ← match under with
      | .named name => σ.artefact name
      | .fresh c => do pure (.state ⟨σ.scene.owners, "", State.new (← σ.context c)⟩)
    return (σ, .texts (← σ.childrenUnder under (← σ.value node)))
  | .ownChildren node c => do
    let c ← σ.context c
    return (σ, .texts (← σ.ownLabels (← σ.value node) (State.new c)))
  | .syntaxChildren node => do
    match ← σ.value node with
    | .syntaxNode n =>
      return (σ, .texts ((← orFault (σ.scene.syntaxChildren n)).map Value.label))
    | _ => throw lacking
  | .register key adapter overwrite => do return (← σ.register key adapter overwrite, .nothing)
  | .unregister key => do return (← σ.unregister key, .nothing)
  | .registered =>
    return (σ, .texts ((Registry.listing σ.registry NodeClass.qualifiedName).map NodeClass.tag))
  | .policy p => do
    match ← σ.policy? p with
    | some given => return (σ, ← σ.reportPolicy given)
    | none => throw lacking
  | .policyInForce p => do return (σ, ← σ.reportPolicy (σ.inForce (← σ.policy? p)))
  | .setDefault p => do return ({ σ with fallback := ← σ.policy? p }, .nothing)
  | .sameAnswers a b => do return (σ, .flag ((← σ.answer a).same (← σ.answer b)))
  | .logEvent r => do return (σ, .records (← σ.recordOf r))
  | .evaluate e s node init => do
    let node ← σ.value node
    let s ← σ.state s
    let init ← σ.value init
    let (answer, memory) := (σ.scene.evaluator e node s (.value init)).perform (Memory.start true)
    return (σ, .answer (← reportAnswer (← orFault answer)) memory.entries)
  | .defineSchema objects scalars name => do
    let objects := OrderedMap.ofList (objects.map fun (type, fields) => (type, .ofList fields))
    match Schema.ofDefinitions? objects (scalars.getD Schema.standardScalars) with
    | .ok s => σ.keepSchema name s
    | .error e => throw (.plain .value e.message)
  | .collectTypes types name => do
    let types ← types.mapM fun (key, type) => return (key, ← σ.value type)
    σ.keepSchema name ⟨.ofList types⟩
  | .lookupType schema type => do
    let s ← orFault (σ.scene.schema schema)
    return (σ, .text (← orFault ((Context.schema schema s).typeNamed type)).label)
  | .resolveType c type => do return (σ, .text (← orFault ((← σ.context c).typeNamed type)).label)
  | .reachable schema root => do return (σ, ← σ.analyse Scene.reachableTypes schema root)
  | .recursive schema root => do return (σ, ← σ.analyse Scene.recursiveFields schema root)
  | .counts node => do return (σ, ← σ.countFrom (← σ.value node))
  | .parse source =>
    match source with
    | some text =>
      if text.contains '\x00' then
        throw (.plain .value "source code string cannot contain null bytes")
      else
        return (σ, .text "Module")
    | none => throw wrongArgument
  | .tree source name => do
    let t ← makeTree source
    return (σ.add .tree name t, .tree t)
  | .treeRoot p => do
    let t ← makeTree (.rooted p)
    return (σ, .root (t.root?.getD 0) t.size)
  | .graph source name => do
    let g ← makeGraph σ.capacity source
    return (σ.add .graph name g, .graph g)
  | .node owner index => do return (σ, .text (← orFault (σ.scene.nodeAt owner index)).label)
  | .rootOf tree => do return (σ, .text (← σ.value (.rootOf tree)).label)
  | .childIndices tree index => do
    let t ← orFault (σ.scene.tree tree)
    return (σ, .numbers (← orFault (t.content.childrenAt index)))
  | .successors graph index => do
    let g ← orFault (σ.scene.graph graph)
    return (σ, .numbers (← orFault (g.content.successorsAt index)))
  | .asIndex x =>
    match Index.asIndex? x with
    | .ok a => return (σ, .array a)
    | .error e => throw e.report
  | .reduce _ | .reduceFully _ _ => return (σ, .nothing)

/-- Carries out a step: the session after it, and the report. -/
def perform (step : Step) : Session × StepReport :=
  match step with
  | .reduce w => (σ, σ.walk w fun c => .value c.value)
  | .reduceFully w withState =>
    (σ, σ.walk w fun c =>
      .reduction c.value c.evaluations c.state.seenCount
        (if withState then some (.of c.state) else none))
  | step =>
    match σ.carryOut step with
    | .ok (next, reply) => (next, ⟨.ok reply, none⟩)
    | .error e => (σ, ⟨.error e, none⟩)

/-- Carries out steps one after the other. -/
def performAll : Session → List Step → List StepReport
  | _, [] => []
  | σ, step :: later =>
    let (next, report) := σ.perform step
    report :: performAll next later

end Session

end GraphFold
