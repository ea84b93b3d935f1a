/-
GraphFold.Main — the census as a command.

The arguments are those of the census. The tree of the source is read from
standard input, as a listing, once the arguments are accepted. What the census
prints goes to standard output; what it logs, and what went wrong, goes to
standard error.
-/
import GraphFold.Census
import GraphFold.SyntaxTree.Listing

namespace GraphFold.Census

/-- How the command is called. -/
def usage : String := "usage: census [-h] [--max-depth MAX_DEPTH] [--top TOP] [--verbose] source"

/-- The lines of the input up to its end, without the ends of the lines. -/
partial def readLines (input : IO.FS.Stream) (above : List String) : IO (List String) := do
  let line ← input.getLine
  if line.isEmpty then
    return above.reverse
  else
    readLines input (line.trimAsciiEnd.toString :: above)

/-- A log record as one line. -/
def recordLine (r : LogRecord) : String :=
  LogRecord.levelName r.level ++ ":" ++ r.logger ++ ":" ++ r.message

/-- Prints what the census comes to; the answer is the exit status. -/
def printResult (r : Result) : IO UInt32 := do
  for record in r.records do
    IO.eprintln (recordLine record)
  for line in r.lines do
    IO.println line
  match r.ending with
  | .status n => return n.toUInt32
  | .exit 0 => do
    IO.println usage
    return 0
  | .exit n => do
    IO.eprintln usage
    return n.toUInt32
  | .error e => do
    IO.eprintln e.message
    return 1

/-- Runs the command on a tree that is the source under whatever path is given. -/
def runOn (lines arguments : List String) : IO UInt32 := do
  match SyntaxTree.ofListing? moduleName lines with
  | .ok nodes => printResult (run (fun _ => .ok nodes) stepBudget arguments)
  | .error e => do
    IO.eprintln e.message
    return 1

end GraphFold.Census

/-- The command. -/
def main (arguments : List String) : IO UInt32 := do
  match GraphFold.Census.Options.read arguments with
  | .options _ => do
    let lines ← GraphFold.Census.readLines (← IO.getStdin) []
    GraphFold.Census.runOn lines arguments
  | .help | .wrong => GraphFold.Census.runOn [] arguments
