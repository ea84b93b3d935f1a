/-
GraphFold.Census — the command that counts the syntax classes of a source and
lists the recursive fields of an example schema.

It prints its arguments, then counts the nodes of the source's tree up to the
greatest depth asked for, and prints the counts, the greatest first, and the
recursive fields. If the walk goes too deep it prints that and ends with
status 1.

  §1 Directories — where sources are found.
  §2 Printing
  §3 Running     — `Census.run`.
-/
import GraphFold.Census.Options
import GraphFold.Census.SourcePath
import GraphFold.SyntaxTree.Census

namespace GraphFold.Census

/-! ## §1 Directories -/

/-- Why a path leads to no source. -/
inductive PathError where
  /-- There is a null character in it. -/
  | nullCharacter
  /-- The path, or a name in it, is too long. -/
  | longName
  /-- It leads to a directory. -/
  | directory
  /-- It goes on below a source. -/
  | notDirectory
  /-- It leads to nothing. -/
  | missing
  deriving DecidableEq, Repr

/-- The syntax nodes of a source, its root first, or why there is none. -/
abbrev Found : Type := Except PathError (Array SyntaxEntry)

/-- A directory, as what each path leads to. -/
abbrev Directory : Type := SourcePath → Found

/-- The greatest length of a name in a directory, in bytes. -/
def maxNameLength : Nat := 255

/-- The greatest length of a path, in bytes. -/
def maxPathLength : Nat := 4095

/-- What parts of a path lead to. `inside` says whether they start in the directory that holds
the source; the directories above it and the root hold no sources. -/
def follow (name : String) (nodes : Array SyntaxEntry) : Bool → List String → Found
  | _, [] => .error .directory
  | inside, part :: later =>
    if part = ".." then follow name nodes false later
    else if maxNameLength < part.utf8ByteSize then .error .longName
    else if inside && part = name then
      if later.isEmpty then .ok nodes else .error .notDirectory
    else .error .missing

/-- The directory that holds one source under a name. -/
def directoryOf (name : String) (nodes : Array SyntaxEntry) : Directory := fun path =>
  if path.text.toList.contains '\x00' then .error .nullCharacter
  else if maxPathLength < path.text.utf8ByteSize then .error .longName
  else follow name nodes (path.anchor = "") path.parts

/-- The report on an error of the file system. -/
def fileReport (kind : ErrorKind) (number : Nat) (text : String) (path : SourcePath) :
    ErrorReport :=
  .plain kind ("[Errno " ++ toString number ++ "] " ++ text ++ ": " ++ Text.quoted path.text)

/-- The report on a path that leads to no source. -/
def PathError.report (path : SourcePath) : PathError → ErrorReport
  | .nullCharacter => .plain .value "embedded null byte"
  | .longName => fileReport .longName 36 "File name too long" path
  | .directory => fileReport .directory 21 "Is a directory" path
  | .notDirectory => fileReport .notDirectory 20 "Not a directory" path
  | .missing => fileReport .missingFile 2 "No such file or directory" path

/-! ## §2 Printing -/

/-- Entries in braces, each name in quotes. -/
def mapForm (entries : List (String × String)) : String :=
  "\x7b" ++ ", ".intercalate (entries.map fun (name, form) => Text.quoted name ++ ": " ++ form)
    ++ "\x7d"

/-- The line that shows the arguments. -/
def configLine (o : Options) : String :=
  "config: " ++ mapForm [
    ("source", (SourcePath.ofText o.source).exact),
    ("max_depth", (o.maxDepth.map toString).getD noneWord),
    ("top", toString o.top),
    ("verbose", truthWord o.verbose)]

/-- The line that shows the counts. -/
def countsLine (counts : List (String × Nat)) : String :=
  "[census] node types: " ++ mapForm (counts.map fun (cls, n) => (cls, toString n))

/-- The line that shows the recursive fields. -/
def fieldsLine (fields : List String) : String :=
  "[schema] recursive fields: " ++ tupleForm (fields.map Text.quoted)

/-- The line that shows why the walk was given up. -/
def abortLine (message : String) : String := "[census] aborted: " ++ message

/-! ## §3 Running -/

/-- How the command ends. -/
inductive Ending where
  | status (n : Nat)
  /-- The arguments were not accepted, or the usage was asked for. -/
  | exit (n : Nat)
  | error (e : ErrorReport)

/-- What the command prints, what it logs, and how it ends. -/
structure Result where
  lines : List String
  records : List LogRecord
  ending : Ending

/-- The types of the example schema. -/
def exampleTypes : OrderedMap String (OrderedMap String String) :=
  .ofList [("Query", .ofList [("viewer", "User")]),
    ("User", .ofList [("name", "String"), ("manager", "User"), ("team", "Team")]),
    ("Team", .ofList [("lead", "User"), ("title", "String")])]

/-- The recursive fields of the example schema, from its query type. -/
def exampleFields (budget : Nat) : Except ErrorReport (List String) :=
  match Schema.ofDefinitions? exampleTypes Schema.standardScalars with
  | .error e => .error (.plain .value e.message)
  | .ok s => Scene.empty.recursiveFields ⟨.standard, .ok .standard, budget⟩ "" s "Query"

/-- The name under which the nodes of the source are kept. -/
def moduleName : String := "module"

/-- Counts the classes of the nodes of a source. -/
def survey (nodes : Array SyntaxEntry) (policy : Policy) (verbose : Bool) (budget : Nat) :
    Except ErrorReport (ValueOutcome Tally) := do
  let scene := { Scene.empty with modules := (∅ : Std.HashMap String _).insert moduleName nodes }
  match scene.read (.entry moduleName 0) with
  | .error fault => throw (.ofFault fault)
  | .ok root =>
    let listener := if verbose then some ListenerScript.log.listener else none
    return scene.tally ⟨.standard, .ok policy, budget⟩ Tally.rebuild listener root

/-- The log records that are shown: all of them if asked for, else none below the level of
information. -/
def shown (verbose : Bool) (records : List LogRecord) : List LogRecord :=
  records.filter fun r => r.passes (.int (if verbose then 10 else 20))

/-- Counts, ranks and prints. -/
def report (o : Options) (policy : Policy) (budget : Nat) (outcome : ValueOutcome Tally) :
    Result :=
  let config := configLine o
  match outcome with
  | .finished c =>
    let counts := countsLine (Index.upTo c.value.ranked o.top)
    let records := shown o.verbose (c.logRecords ++ [c.finishedRecord])
    match exampleFields budget with
    | .ok fields => ⟨[config, counts, fieldsLine fields], records, .status 0⟩
    | .error e => ⟨[config, counts], records, .error e⟩
  | .failed failure c =>
    let e := Scene.empty.report policy.regime failure
    let records := shown o.verbose (c.logRecords ++ e.logRecords)
    match e.abort? with
    | some _ => ⟨[config, abortLine e.message], records, .status 1⟩
    | none => ⟨[config], records, .error e⟩
  | .unfinished _ => ⟨[config], [], .error (.silent .runtime)⟩

/-- Runs the command on accepted arguments; each of its walks has this budget of steps. -/
def runWith (directory : Directory) (budget : Nat) (o : Options) : Result :=
  match Policy.make? (o.maxDepth.map fun limit => .ok (.int limit)) Policy.standard.checked
      Policy.standard.description with
  | .error e => ⟨[configLine o], [], .error e.report⟩
  | .ok policy =>
    let path := SourcePath.ofText o.source
    match directory path with
    | .error e => ⟨[configLine o], [], .error (e.report path)⟩
    | .ok nodes =>
      match survey nodes policy o.verbose budget with
      | .error e => ⟨[configLine o], [], .error e⟩
      | .ok outcome => report o policy budget outcome

/-- Runs the command. -/
def run (directory : Directory) (budget : Nat) (arguments : List String) : Result :=
  match Options.read arguments with
  | .options o => runWith directory budget o
  | .help => ⟨[], [], .exit 0⟩
  | .wrong => ⟨[], [], .exit 2⟩

end GraphFold.Census
