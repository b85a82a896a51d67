import SourceAtlas.Command.Run
import SourceAtlas.Command.Surroundings

/-! # The program

Arguments and environment say what to do, and the standard input tells of the surroundings. Events
and errors go to the standard error output.
-/

namespace SourceAtlas.Program

def usage : String :=
  "Usage: sourceatlas [-v] COMMAND ARGUMENTS

Loads source files and maps byte offsets to lines.

  files PATHS         list the files below some paths with their ids
  locate PATH OFFSET  translate a byte offset into a line and a column
  parse PATHS         report the syntax errors of the files below some paths
  watch PATHS         reload files when they change

  -v, --verbose       show more of the log; twice for all of it
  -h, --help          show this text"

/-- The rest of the standard input. -/
partial def readRest (text : String) : IO String := do
  let line ← (← IO.getStdin).getLine
  if line.isEmpty then return text else readRest (text ++ line)

def environment : IO Config.Environment :=
  Config.Environment.names.filterMapM fun name => do
    return (← IO.getEnv name).map fun value => (name, value)

def complain (text : String) : IO UInt32 := do
  IO.eprintln text
  return 2

def tell (outcome : Outcome) : IO UInt32 := do
  for event in outcome.log do
    IO.eprintln (event.level.name ++ " " ++ event.message)
  IO.print outcome.output
  for crash in outcome.crash do
    IO.eprintln crash.message
  return outcome.exitCode.toUInt32

/-- The usual host, with as many columns as the environment says. -/
def host : IO Host := do
  let columns := (← IO.getEnv "COLUMNS").bind (·.toNat?)
  return { Host.usual with terminal.width := columns.getD 80 }

def carryOut (request : Request) : IO UInt32 := do
  match Surroundings.read (← readRest "") with
  | .error line => complain ("line " ++ toString line ++ " cannot be read")
  | .ok surroundings =>
    match surroundings.session with
    | .error e => complain e.message
    | .ok session =>
      match request.fulfil (← environment) surroundings.batches session (← host) with
      | .ran outcome => tell outcome
      | _ => return 2

def run (arguments : List String) : IO UInt32 := do
  match Arguments.read arguments with
  | .nothing =>
    IO.println usage
    return 2
  | .help =>
    IO.println usage
    return 0
  | .misuse => complain usage
  | request => carryOut request

end SourceAtlas.Program

def main (arguments : List String) : IO UInt32 :=
  SourceAtlas.Program.run arguments
