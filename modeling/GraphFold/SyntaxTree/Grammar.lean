/-
GraphFold.SyntaxTree.Grammar — the classes of syntax nodes, in version 3.11 of
the grammar.

Every class lies below one root class, `AST`: the FAMILIES directly below it,
and the members of each family below that. A class declares the fields of its
nodes in order. Members of some families carry nothing but their class, and a
parsed module uses one single node for each of them.

Some classes are RETIRED: no parser makes nodes of them, but they can still be
named. Those that stood for constants of one kind make constants now, and the
one for rows of slices makes tuples. Likewise some attributes go by an older
name too. Beside the classes of nodes there are tools that go by names.

  §1 Classes    — `families`, `lineage`, `declaredFields`, `retired`.
  §2 Tools      — functions, other classes, and constants.
  §3 Old names  — `classMade`, `attributeMeant`.
-/

namespace GraphFold.SyntaxTree

/-! ## §1 Classes -/

/-- A class directly below the root class, its fields, and the classes below it with
theirs. -/
structure Family where
  name : String
  fields : List String
  members : List (String × List String)

/-- The class above all syntax classes. -/
def rootClass : String := "AST"

/-- The families of version 3.11, in alphabetical order of their names. -/
def families : List Family := [
  ⟨"alias", ["name", "asname"], []⟩,
  ⟨"arg", ["arg", "annotation", "type_comment"], []⟩,
  ⟨"arguments", ["posonlyargs", "args", "vararg", "kwonlyargs", "kw_defaults", "kwarg", "defaults"], []⟩,
  ⟨"boolop", [], [
    ("And", []), ("Or", [])]⟩,
  ⟨"cmpop", [], [
    ("Eq", []), ("Gt", []), ("GtE", []), ("In", []), ("Is", []), ("IsNot", []), ("Lt", []),
    ("LtE", []), ("NotEq", []), ("NotIn", [])]⟩,
  ⟨"comprehension", ["target", "iter", "ifs", "is_async"], []⟩,
  ⟨"excepthandler", [], [
    ("ExceptHandler", ["type", "name", "body"])]⟩,
  ⟨"expr", [], [
    ("Attribute", ["value", "attr", "ctx"]), ("Await", ["value"]),
    ("BinOp", ["left", "op", "right"]), ("BoolOp", ["op", "values"]),
    ("Call", ["func", "args", "keywords"]), ("Compare", ["left", "ops", "comparators"]),
    ("Constant", ["value", "kind"]), ("Dict", ["keys", "values"]),
    ("DictComp", ["key", "value", "generators"]),
    ("FormattedValue", ["value", "conversion", "format_spec"]),
    ("GeneratorExp", ["elt", "generators"]), ("IfExp", ["test", "body", "orelse"]),
    ("JoinedStr", ["values"]), ("Lambda", ["args", "body"]), ("List", ["elts", "ctx"]),
    ("ListComp", ["elt", "generators"]), ("Name", ["id", "ctx"]),
    ("NamedExpr", ["target", "value"]), ("Set", ["elts"]), ("SetComp", ["elt", "generators"]),
    ("Slice", ["lower", "upper", "step"]), ("Starred", ["value", "ctx"]),
    ("Subscript", ["value", "slice", "ctx"]), ("Tuple", ["elts", "ctx"]),
    ("UnaryOp", ["op", "operand"]), ("Yield", ["value"]), ("YieldFrom", ["value"])]⟩,
  ⟨"expr_context", [], [
    ("Del", []), ("Load", []), ("Store", [])]⟩,
  ⟨"keyword", ["arg", "value"], []⟩,
  ⟨"match_case", ["pattern", "guard", "body"], []⟩,
  ⟨"mod", [], [
    ("Expression", ["body"]), ("FunctionType", ["argtypes", "returns"]),
    ("Interactive", ["body"]), ("Module", ["body", "type_ignores"])]⟩,
  ⟨"operator", [], [
    ("Add", []), ("BitAnd", []), ("BitOr", []), ("BitXor", []), ("Div", []), ("FloorDiv", []),
    ("LShift", []), ("MatMult", []), ("Mod", []), ("Mult", []), ("Pow", []), ("RShift", []),
    ("Sub", [])]⟩,
  ⟨"pattern", [], [
    ("MatchAs", ["pattern", "name"]),
    ("MatchClass", ["cls", "patterns", "kwd_attrs", "kwd_patterns"]),
    ("MatchMapping", ["keys", "patterns", "rest"]), ("MatchOr", ["patterns"]),
    ("MatchSequence", ["patterns"]), ("MatchSingleton", ["value"]), ("MatchStar", ["name"]),
    ("MatchValue", ["value"])]⟩,
  ⟨"stmt", [], [
    ("AnnAssign", ["target", "annotation", "value", "simple"]), ("Assert", ["test", "msg"]),
    ("Assign", ["targets", "value", "type_comment"]),
    ("AsyncFor", ["target", "iter", "body", "orelse", "type_comment"]),
    ("AsyncFunctionDef", ["name", "args", "body", "decorator_list", "returns", "type_comment"]),
    ("AsyncWith", ["items", "body", "type_comment"]), ("AugAssign", ["target", "op", "value"]),
    ("Break", []), ("ClassDef", ["name", "bases", "keywords", "body", "decorator_list"]),
    ("Continue", []), ("Delete", ["targets"]), ("Expr", ["value"]),
    ("For", ["target", "iter", "body", "orelse", "type_comment"]),
    ("FunctionDef", ["name", "args", "body", "decorator_list", "returns", "type_comment"]),
    ("Global", ["names"]), ("If", ["test", "body", "orelse"]), ("Import", ["names"]),
    ("ImportFrom", ["module", "names", "level"]), ("Match", ["subject", "cases"]),
    ("Nonlocal", ["names"]), ("Pass", []), ("Raise", ["exc", "cause"]), ("Return", ["value"]),
    ("Try", ["body", "handlers", "orelse", "finalbody"]),
    ("TryStar", ["body", "handlers", "orelse", "finalbody"]),
    ("While", ["test", "body", "orelse"]), ("With", ["items", "body", "type_comment"])]⟩,
  ⟨"type_ignore", [], [
    ("TypeIgnore", ["lineno", "tag"])]⟩,
  ⟨"unaryop", [], [
    ("Invert", []), ("Not", []), ("UAdd", []), ("USub", [])]⟩,
  ⟨"withitem", ["context_expr", "optional_vars"], []⟩
]

/-- The families whose members stand for themselves: a parser makes one node of each. -/
def sharedFamilies : List String := ["expr_context", "boolop", "operator", "unaryop", "cmpop"]

/-- Where a class stands in the grammar. -/
inductive Standing where
  | root
  | family (f : Family)
  | member (f : Family) (fields : List String)

/-- The fields of a member of a family. -/
def Family.member? (f : Family) (name : String) : Option (List String) :=
  (f.members.find? fun member => member.1 == name).map (·.2)

/-- Where the class of this name stands, if there is one. -/
def standing? (name : String) : Option Standing :=
  if name = rootClass then
    some .root
  else
    families.findSome? fun f =>
      if f.name = name then some (.family f) else (f.member? name).map (.member f)

/-- The retired classes, each with the one directly above it. -/
def retired : List (String × String) := [
  ("AugLoad", "expr_context"), ("AugStore", "expr_context"), ("Param", "expr_context"),
  ("Suite", "mod"), ("slice", "AST"), ("Index", "slice"), ("ExtSlice", "slice"),
  ("Num", "Constant"), ("Str", "Constant"), ("Bytes", "Constant"),
  ("NameConstant", "Constant"), ("Ellipsis", "Constant")]

/-- The class directly above a retired one. -/
def aboveRetired? (name : String) : Option String :=
  (retired.find? fun entry => entry.1 == name).map (·.2)

/-- The classes above a class that is not retired, and last the root class. -/
def aboveStanding (name : String) : List String :=
  match standing? name with
  | some (.member f _) => [f.name, rootClass]
  | some (.family _) => [rootClass]
  | _ => []

/-- The classes above a class, the nearest first. At most two of them are retired in a row. -/
def above (name : String) : List String :=
  match aboveRetired? name with
  | none => aboveStanding name
  | some next =>
    match aboveRetired? next with
    | none => next :: aboveStanding next
    | some last => next :: last :: aboveStanding last

/-- The class, the ones above it, and last the root class, as version 3.11 has them. -/
def lineage (name : String) : List String := name :: above name

/-- The fields a class declares in version 3.11, in order. -/
def declaredFields (name : String) : List String :=
  match standing? name with
  | some (.member _ fields) => fields
  | some (.family f) => f.fields
  | _ => []

/-- Whether a parser makes one node only of this class. -/
def isShared (name : String) : Bool :=
  match standing? name with
  | some (.member f _) => sharedFamilies.contains f.name
  | _ => false

/-- Whether there is a class of this name. -/
def isClass (name : String) : Bool := (standing? name).isSome || (aboveRetired? name).isSome

/-! ## §2 Tools -/

/-- The functions that go by a name beside the classes. -/
def functions : List String :=
  ["parse", "literal_eval", "dump", "copy_location", "fix_missing_locations", "increment_lineno",
    "iter_fields", "iter_child_nodes", "get_docstring", "get_source_segment", "walk", "unparse",
    "main", "contextmanager", "_dims_getter", "_dims_setter", "_getter", "_setter", "_new",
    "_pad_whitespace", "_simple_enum", "_splitlines_no_ff"]

/-- The classes that go by a name beside those of nodes. -/
def toolClasses : List String :=
  ["NodeVisitor", "NodeTransformer", "_Unparser", "_Precedence", "_ABC", "IntEnum", "auto",
    "nullcontext"]

/-- The values that go by a name and are neither classes nor functions. Of those that cannot be
members of a set the class is given. -/
def constants : List (String × Option String) := [
  ("PyCF_ALLOW_TOP_LEVEL_AWAIT", none), ("PyCF_ONLY_AST", none), ("PyCF_TYPE_COMMENTS", none),
  ("_ALL_QUOTES", none), ("_MULTI_QUOTES", none), ("_SINGLE_QUOTES", none), ("_INFSTR", none),
  ("__cached__", none), ("__doc__", none), ("__file__", none), ("__loader__", none),
  ("__name__", none), ("__package__", none), ("sys", none), ("__spec__", some "ModuleSpec"),
  ("__builtins__", some "dict"), ("_const_node_type_names", some "dict"),
  ("_const_types", some "dict"), ("_const_types_not", some "dict")]

/-! ## §3 Old names -/

/-- The retired class of rows of slices. -/
def sliceRowClass : String := "ExtSlice"

/-- The class of contexts in which a value is taken. -/
def loadClass : String := "Load"

/-- The class of a node that is made under a class: the retired classes of constants make
constants, and rows of slices are tuples. -/
def classMade (cls : String) : String :=
  if cls = sliceRowClass then "Tuple"
  else
    match aboveRetired? cls with
    | some "Constant" => "Constant"
    | _ => cls

/-- The older names of attributes, by class, each with the name that is kept. -/
def olderNames : List (String × String × String) :=
  [("Constant", "n", "value"), ("Constant", "s", "value"), ("Tuple", "dims", "elts")]

/-- The name under which an attribute of the nodes of a class is kept. -/
def attributeMeant (cls name : String) : String :=
  match olderNames.find? fun entry => entry.1 == cls && entry.2.1 == name with
  | some (_, _, kept) => kept
  | none => name

end GraphFold.SyntaxTree
