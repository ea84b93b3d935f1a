/-
GraphFold.Census.Options — the arguments of the census.

There is one positional argument, the source, and four options. An option may
be cut short as long as one option only begins like that. The value of an
option follows it, or is tied to it by an equals sign. After two dashes alone
no argument is an option any more. A negative number is an argument, not an
option.

  §1 Items   — what each argument is taken for.
  §2 Reading — consuming the items from left to right.
-/
import GraphFold.Text.Integer

namespace GraphFold.Census

/-! ## §1 Items -/

/-- The options. -/
inductive OptionName where
  | help
  | maxDepth
  | top
  | verbose
  deriving DecidableEq, Repr

/-- The long names of the options. -/
def optionNames : List (String × OptionName) :=
  [("--help", .help), ("--max-depth", .maxDepth), ("--top", .top), ("--verbose", .verbose)]

/-- The short name of the option that shows the usage. -/
def shortHelp : String := "-h"

/-- What an argument is taken for. -/
inductive Item where
  | argument (s : String)
  /-- An option, with a value if one is tied to it. -/
  | option (name : OptionName) (value : Option String)
  /-- The short name of the usage option, with something tied to it. -/
  | tiedHelp (value : String)
  /-- It looks like an option and is none. -/
  | unknown
  /-- The two dashes after which there are no options. -/
  | dashes
  deriving DecidableEq, Repr

/-- Cuts a text at the first equals sign, if there is one. -/
def splitAtEquals (cs : List Char) : List Char × Option (List Char) :=
  match cs.dropWhile (· ≠ '=') with
  | [] => (cs, none)
  | _ :: value => (cs.takeWhile (· ≠ '='), some value)

/-- Whether the characters are digits, at least one. -/
def allDigits (cs : List Char) : Bool := !cs.isEmpty && cs.all fun c => (Text.digit? c).isSome

/-- Characters without a line end after them. -/
def withoutLineEnd (cs : List Char) : List Char :=
  if cs.getLast? = some '\n' then cs.dropLast else cs

/-- Whether an argument is a negative number, with or without a fraction; a line end after it
does not count. -/
def isNegativeNumber : List Char → Bool
  | '-' :: cs =>
    let cs := withoutLineEnd cs
    allDigits cs ||
      match cs.dropWhile fun c => (Text.digit? c).isSome with
      | '.' :: fraction => allDigits fraction
      | _ => false
  | _ => false

/-- What an argument is when no option begins like it. -/
def otherItem (s : String) : Item :=
  if isNegativeNumber s.toList || s.toList.contains ' ' then .argument s else .unknown

/-- The options whose long name begins with these characters. -/
def beginningWith (cs : List Char) : List OptionName :=
  (optionNames.filter fun (name, _) => cs.isPrefixOf name.toList).map (·.2)

/-- Whether the arguments can be told apart: two dashes and an equals sign begin like every
option. -/
inductive Classified where
  | item (i : Item)
  | ambiguous
  deriving DecidableEq, Repr

/-- What an argument is taken for, before two dashes alone. -/
def classify (s : String) : Classified :=
  match s.toList with
  | '-' :: '-' :: rest =>
    let (start, value) := splitAtEquals ('-' :: '-' :: rest)
    let value := value.map String.ofList
    match optionNames.find? fun (name, _) => name.toList == start, beginningWith start with
    | some (_, name), _ => .item (.option name value)
    | none, [name] => .item (.option name value)
    | none, [] => .item (otherItem s)
    | none, _ => .ambiguous
  | '-' :: c :: rest =>
    if s = shortHelp then
      .item (.option .help none)
    else if c = 'h' then
      .item (.tiedHelp (String.ofList (if rest.head? = some '=' then rest.tail else rest)))
    else
      .item (otherItem s)
  | _ => .item (.argument s)

/-- What the arguments are taken for; nothing if one of them is ambiguous. -/
def items? : List String → Option (List Item)
  | [] => some []
  | "--" :: rest => some (.dashes :: rest.map .argument)
  | s :: rest =>
    match classify s, items? rest with
    | .item i, some is => some (i :: is)
    | _, _ => none

/-! ## §2 Reading -/

/-- The values of the arguments. -/
structure Options where
  source : String
  maxDepth : Option Int
  top : Int
  verbose : Bool
  deriving DecidableEq, Repr

/-- What reading the arguments comes to. -/
inductive Parsed where
  | options (o : Options)
  /-- The usage is asked for. -/
  | help
  /-- The arguments are wrong. -/
  | wrong
  deriving DecidableEq, Repr

/-- The values read so far. -/
structure Partial where
  source : Option String
  maxDepth : Option Int
  top : Int
  verbose : Bool
  /-- Whether some argument has no place. -/
  extra : Bool
  /-- Whether the source was the last thing read. -/
  atSource : Bool

/-- The values before anything is read. -/
def Partial.start : Partial := ⟨none, none, 10, false, false, false⟩

/-- Stores the value of an option, which has to be an integer. -/
def Partial.store? (p : Partial) (name : OptionName) (value : String) : Option Partial :=
  match Text.integer? value, name with
  | .ok i, .maxDepth => some { p with maxDepth := some i, atSource := false }
  | .ok i, .top => some { p with top := i, atSource := false }
  | _, _ => none

/-- The end of the reading: the source has to be there, and nothing else. -/
def Partial.finish (p : Partial) : Parsed :=
  match p.source, p.extra with
  | some source, false => .options ⟨source, p.maxDepth, p.top, p.verbose⟩
  | _, _ => .wrong

/-- Whether what is tied to the short name of the usage option only repeats it. -/
def repeatsHelp (value : String) : Bool := !value.isEmpty && value.toList.all (· = 'h')

/-- Takes an argument that is no option's value: the first one is the source. -/
def Partial.take (p : Partial) (s : String) : Partial :=
  match p.source with
  | none => { p with source := some s, atSource := true }
  | some _ => { p with extra := true, atSource := false }

/-- Whether two dashes alone stand before or after the source, where they count for nothing. -/
def Partial.passesDashes (p : Partial) : List Item → Bool
  | .argument _ :: _ => p.atSource || p.source.isNone
  | _ => p.atSource

/-- Consumes the items from left to right. The first item that is wrong, or that asks for the
usage, ends it; items without a place are found at the end. -/
def consume : Partial → List Item → Parsed
  | p, [] => p.finish
  | p, .unknown :: rest => consume { p with extra := true, atSource := false } rest
  | _, .option .help none :: _ => .help
  | _, .option .help (some _) :: _ => .wrong
  | _, .tiedHelp value :: _ => if repeatsHelp value then .help else .wrong
  | p, .option .verbose none :: rest => consume { p with verbose := true, atSource := false } rest
  | _, .option .verbose (some _) :: _ => .wrong
  | p, .option name (some value) :: rest =>
    match p.store? name value with
    | some next => consume next rest
    | none => .wrong
  | p, .option name none :: .argument value :: rest =>
    match p.store? name value with
    | some next => consume next rest
    | none => .wrong
  | _, .option _ none :: _ => .wrong
  | p, .argument s :: rest => consume (p.take s) rest
  | p, .dashes :: rest =>
    if p.passesDashes rest then
      consume { p with atSource := false } rest
    else
      consume { p with extra := true, atSource := false } rest

/-- Reads the arguments. -/
def Options.read (arguments : List String) : Parsed :=
  match items? arguments with
  | some items => consume .start items
  | none => .wrong

end GraphFold.Census
