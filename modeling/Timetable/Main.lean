import Std.Time.DateTime.Timestamp
import Timetable.CommandLine.Daemon
import Timetable.CommandLine.Operator
import Timetable.Json

/-!
# The command line

The programs themselves are `CommandLine.runOperator` and `CommandLine.runDaemon`; here they get
the time, a seed and the text of the configuration, and their reports are written out. An empty
text is a configuration that says nothing; other texts need a reader of documents, which this
program lacks.
-/

namespace Timetable.CommandLine

/-- The document of a text. -/
def documentOfText (text : String) : Config.Document where
  tree := if text.all Char.isWhitespace then .ok .null else .error "no reader for this document"
  unwritable := none
  config := .ok Config.default

/-- The document in a file. -/
def readDocument (path : String) : IO Config.Document := do
  try
    return documentOfText (← IO.FS.readFile path)
  catch e =>
    return { documentOfText "" with tree := .error (toString e) }

/-- The path of the configuration among the arguments of the two programs. -/
def documentPath (args : List String) : String :=
  match args with
  | ["--config", path] => path
  | path :: _ => path
  | [] => ""

/-- Starts a program and writes out its report. -/
def start (program : Surroundings → List String → Report × Disk) (args : List String) :
    IO UInt32 := do
  let path := documentPath args
  let document ← readDocument path
  let now ← Std.Time.Timestamp.now
  let seed ← IO.rand 0 (UInt32.size - 1)
  let s : Surroundings := {
    disk := .empty
    clock := now.toNanosecondsSinceUnixEpoch.val
    seed := UInt32.ofNat seed
    engine := .current
    isObject := Json.isObject
    document := fun _ => document }
  let (report, _) := program s args
  for entry in report.log do
    IO.eprintln entry.line
  IO.print report.output
  IO.eprint report.complaint
  return UInt32.ofNat report.exitCode

end Timetable.CommandLine

/-- The scheduling program if the first argument is `daemon`, and the operator's program
otherwise. -/
def main (args : List String) : IO UInt32 :=
  match args with
  | "daemon" :: rest => Timetable.CommandLine.start Timetable.CommandLine.runDaemon rest
  | _ => Timetable.CommandLine.start Timetable.CommandLine.runOperator args
