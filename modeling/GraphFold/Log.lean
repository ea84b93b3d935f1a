/-
GraphFold.Log — log records.

A record has a level, the name of the logger it is written by, and a message.
A logger has a threshold, below which it writes nothing. A threshold of zero
counts as none: the logger then goes by the threshold of the one above all
others, which writes warnings and what is more than that.
-/
import GraphFold.Index.Numeral

namespace GraphFold

open Index (Numeral)

/-- A log record. -/
structure LogRecord where
  level : Numeral
  logger : String
  message : String
  deriving DecidableEq, Repr

namespace LogRecord

/-- The name of a level. -/
def levelName (level : Numeral) : String :=
  match level.toInt with
  | 10 => "DEBUG"
  | 20 => "INFO"
  | 30 => "WARNING"
  | 40 => "ERROR"
  | 50 => "CRITICAL"
  | _ => "Level " ++ level.text

/-- The logger of walks. -/
def walkLogger : String := "ratatosk.traversal"

/-- The logger of events. -/
def eventLogger : String := "ratatosk.types"

/-- The logger above all others. -/
def topLogger : String := "root"

/-- The level of records that only help to find errors. -/
def debugLevel : Numeral := .int 10

/-- The level of warnings. -/
def warningLevel : Numeral := .int 30

/-- The level of errors. -/
def errorLevel : Numeral := .int 40

/-- The record of an event, given by its parts: the word for its kind, and the node in its exact
form. -/
def ofEvent (level : Numeral) (logger : String) (kind : String) (depth evaluations : Int)
    (node : String) : LogRecord :=
  ⟨level, logger,
    "Traversal " ++ kind ++ " (depth " ++ toString depth ++ ", evaluation " ++
      toString evaluations ++ "): " ++ node⟩

/-- The record of a listener that raised. -/
def listenerRaised : LogRecord := ⟨errorLevel, walkLogger, "event_logger raised"⟩

/-- The record of a walk that was given up. -/
def aborted (depth : Nat) (reason : String) : LogRecord :=
  ⟨debugLevel, walkLogger,
    "Reduction aborted at depth " ++ toString depth ++ ": " ++ reason⟩

/-- The record of a walk that came to its end. -/
def finished (evaluations seen : Nat) : LogRecord :=
  ⟨debugLevel, walkLogger,
    "Reduction finished: " ++ toString evaluations ++ " evaluations, " ++ toString seen ++
      " nodes seen"⟩

/-- The least level that a logger writes. Where its threshold is zero, that is the level of warnings;
the logger above all others writes everything then. -/
def leastLevel (logger : String) (threshold : Numeral) : Int :=
  if threshold.toInt = 0 ∧ logger ≠ topLogger then warningLevel.toInt else threshold.toInt

/-- Whether its logger writes a record if it has this threshold. Levels below that of records which
only help to find errors are switched off. -/
def passes (r : LogRecord) (threshold : Numeral) : Bool :=
  debugLevel.toInt ≤ r.level.toInt && leastLevel r.logger threshold ≤ r.level.toInt

/-- The levels that can be given by name. -/
def namedLevels : List (String × Int) :=
  [("CRITICAL", 50), ("FATAL", 50), ("ERROR", 40), ("WARN", 30), ("WARNING", 30), ("INFO", 20),
    ("DEBUG", 10), ("NOTSET", 0)]

end LogRecord

/-- What is given for the threshold of a logger. -/
inductive Threshold where
  | level (n : Numeral)
  | name (s : String)
  /-- Something else, as it is shown. -/
  | stray (shown : String)

/-- Why a logger gets no threshold. -/
inductive ThresholdError where
  /-- There is no level of this name. -/
  | unknownName (s : String)
  /-- What is given is neither an integer nor a name. -/
  | notLevel (shown : String)
  deriving DecidableEq, Repr

/-- The level of a threshold: an integer, or a level by its name. -/
def Threshold.level? : Threshold → Except ThresholdError Numeral
  | level (.real x) => .error (.notLevel x.text)
  | level n => .ok n
  | name s =>
    match LogRecord.namedLevels.find? fun entry => entry.1 == s with
    | some (_, n) => .ok (.int n)
    | none => .error (.unknownName s)
  | stray shown => .error (.notLevel shown)

end GraphFold
