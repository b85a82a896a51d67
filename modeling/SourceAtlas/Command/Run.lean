import SourceAtlas.Command.Arguments
import SourceAtlas.Console.Entry
import SourceAtlas.Session.Watcher

/-! # Commands

Listing files, locating an offset, reporting syntax errors and watching for changes. A command
reports what it prints, its exit code and the session it leaves; a report is then rendered, and a
text whose markup is wrong ends the output with an exception.
-/

namespace SourceAtlas

inductive Crash where
  | failure (failure : Failure)
  | markup (error : Markup.MarkupError)
  | noLine
deriving DecidableEq, Repr

def Crash.message : Crash → String
  | failure reason => reason.message
  | markup error => error.message
  | noLine => ""

structure Host where
  pool : Pool
  terminal : Console.Terminal
deriving DecidableEq, Repr

/-- One worker, and a terminal on which hardly a line has to be broken. Of the short codes it has
those that are numbers. -/
def Host.usual : Host :=
  ⟨{}, ⟨4000, [("100", "💯"), ("1234", "🔢")]⟩⟩

structure Report where
  session : Session
  entries : List Console.Entry
  exitCode : Nat
  crash : Option Crash
  opened : List Path

namespace Report

def done (s : Session) (entries : List Console.Entry) : Report :=
  ⟨s, entries, 0, none, []⟩

def failed (s : Session) (entries : List Console.Entry) : Report :=
  ⟨s, entries, 1, none, []⟩

def crashed (s : Session) (entries : List Console.Entry) (crash : Crash) : Report :=
  ⟨s, entries, 1, some crash, []⟩

end Report

namespace Command

/-! ## Configuration errors -/

/-- The first characters of a text that fit into a number of bytes. -/
def fitting (limit : Nat) : List Char → List Char
  | [] => []
  | c :: rest => if c.utf8Size ≤ limit then c :: fitting (limit - c.utf8Size) rest else []

/-- A text of more than fifty bytes cut down to its first 25 and last 24. -/
def shortened (text : String) : String :=
  if text.utf8ByteSize ≤ 50 then text
  else
    String.ofList (fitting 25 text.toList) ++ "..." ++
      String.ofList (fitting 24 text.toList.reverse).reverse

/-- The texts of the steps of a location, with points between them. -/
def locationText (location : List Place) : String :=
  ".".intercalate (location.map fun
    | .field name => name
    | .index i => toString i)

def issueText (input : String) (issue : Issue) : String :=
  locationText issue.location ++ "\n  " ++ issue.violation.message ++
    " [type=" ++ issue.violation.code ++ ", input_value=" ++ shortened (Text.quoted input) ++
    ", input_type=str]\n    For further information visit https://errors.pydantic.dev/2.14/v/" ++
    issue.violation.code

/-- All issues of an environment; only the number of workers can have any. -/
def issuesText (environment : Config.Environment) (issues : List Issue) : String :=
  let input := Text.strip (environment.get "LINTWALK_MAX_WORKERS")
  toString issues.length ++
    (if issues.length = 1 then " validation error" else " validation errors") ++
    " for WalkerConfig" ++ String.join (issues.map fun issue => "\n" ++ issueText input issue)

/-! ## Loading -/

/-- Loads the files below some roots as the environment configures it; without a configuration or
without files there is nothing to go on with. -/
def loading (environment : Config.Environment) (pool : Pool) (s : Session) (roots : List Path)
    (next : Session → Config → Table → Report) : Report :=
  match Config.ofEnvironment environment with
  | .error issues =>
    .failed s [.marked ("[red]Invalid configuration:[/red] " ++
      Markup.escape (issuesText environment issues))]
  | .ok config =>
    match s.extend config .empty roots pool with
    | (s, .error e) => .crashed s [] (.failure e)
    | (s, .ok (table, _)) =>
      if table.size = 0 then .failed s [.marked "[red]No files to lint were found.[/red]"]
      else next s config table

def byId (s : Session) (table : Table) : List SourceFile :=
  (s.recordsOf table).mergeSort fun a b => a.id ≤ b.id

/-! ## Listing -/

def row (file : SourceFile) : List String :=
  [toString file.id, file.displayName, file.kind.text, toString file.lines.lineCount,
    toString file.lines.length]

def listing (s : Session) (table : Table) : Report :=
  .done s [.table ["id", "name", "kind", "lines", "bytes"] ((byId s table).map row),
    .marked ("(" ++ toString table.size ++ " files)")]

/-! ## Locating -/

def locationEntries (name : String) (location : SourceFile.Location) : List Console.Entry :=
  [.literal (name ++ ":" ++ toString location.line ++ ":" ++ toString location.column),
    .marked ("line bytes: " ++ toString location.range.start ++ ".." ++
      toString location.range.stop),
    .literal location.text]

def locating (offset : Nat) (s : Session) (table : Table) : Report :=
  match s.recordsOf table with
  | [] => .crashed s [] .noLine
  | file :: _ =>
    if file.lines.length < offset then
      .failed s [.marked ("[red]Offset " ++ toString offset ++ " is past the end of " ++
        file.displayName ++ ".[/red]")]
    else match file.locate offset with
      | none => .crashed s [] .noLine
      | some location => .done s (locationEntries file.displayName location)

/-! ## Parsing -/

def errorEntry (file : SourceFile) (error : ParseError) : Option Console.Entry :=
  (file.position? error.startByte).map fun (line, column) =>
    .literal (file.displayName ++ ":" ++ toString line ++ ":" ++ toString column ++ ": " ++
      error.message)

/-- The entries of errors, up to the first whose place is not on a line. -/
def errorEntries (file : SourceFile) : List ParseError → List Console.Entry × Option Crash
  | [] => ([], none)
  | error :: rest =>
    match errorEntry file error with
    | none => ([], some .noLine)
    | some entry =>
      let (entries, crash) := errorEntries file rest
      (entry :: entries, crash)

def parseEntries (grammar : Grammar) : List SourceFile → List Console.Entry × Option Crash
  | [] => ([], none)
  | file :: rest =>
    match file.parse grammar with
    | none => ([], some (.failure (.noTree file.source)))
    | some parsed =>
      match errorEntries file parsed.errors with
      | (entries, some crash) => (entries, some crash)
      | (entries, none) =>
        let (more, crash) := parseEntries grammar rest
        (entries ++ more, crash)

def parsing (s : Session) (table : Table) : Report :=
  match parseEntries s.grammar (byId s table) with
  | (entries, some crash) => .crashed s entries crash
  | (entries, none) =>
    if entries.isEmpty then
      .done s [.marked ("[green]Parsed " ++ toString table.size ++
        " file(s) without errors[/green]")]
    else
      .failed s (entries ++ [.marked ("[red]" ++ toString entries.length ++ " error(s)[/red]")])

/-! ## Watching -/

def firstDirectory (fs : FileSystem) : List Path → Except FileError (Option Path)
  | [] => .ok none
  | path :: rest =>
    match fs.isDirectory path with
    | .error e => .error e
    | .ok true => .ok (some path)
    | .ok false => firstDirectory fs rest

/-- The directory to watch: the first path that is one, or else the parent of the first path. -/
def directoryOf (fs : FileSystem) (paths : List Path) : Except FileError Path :=
  (firstDirectory fs paths).map (·.getD (paths.headD (Path.ofString "")).parent)

def banner (directory : Path) (count : Nat) : Console.Entry :=
  .marked ("[green]Watching[/green] " ++ directory.text ++ " (" ++ toString count ++ " files)")

def watching (terminal : Console.Terminal) (batches : List Batch) (paths : List Path) (s : Session)
    (config : Config) (table : Table) : Report :=
  match directoryOf s.files paths with
  | .error e => .crashed s [] (.failure (.file e))
  | .ok directory =>
    match (banner directory table.size).render terminal with
    | .error e => .crashed s [] (.markup e)
    | .ok _ =>
      let setup : Watcher.Setup := {
        directory := directory
        extensions := config.extensions
        callback := fun _ paths s => s.refreshAll table paths }
      let waited := setup.wait (setup.start (.initial s batches))
      let stopped := setup.stop waited
      let first := banner directory table.size
      let report := match waited.phase.outcome with
        | .ok () => Report.done stopped.session [first]
        | .error .interrupted => Report.done stopped.session [first, .marked "Stopped."]
        | .error e => Report.crashed stopped.session [first] (.failure e)
      { report with opened := stopped.opened }

def run (environment : Config.Environment) (host : Host) (batches : List Batch) (s : Session) :
    Command → Report
  | .files paths => loading environment host.pool s paths fun s _ table => listing s table
  | .locate path offset =>
    match s.files.isFile path with
    | .error e => .crashed s [] (.failure (.file e))
    | .ok false => .failed s [.whole ("[red]" ++ Markup.escape path.text ++
        " is not a file.[/red]")]
    | .ok true => loading environment host.pool s [path] fun s _ table => locating offset s table
  | .parse paths => loading environment host.pool s paths fun s _ table => parsing s table
  | .watch paths => loading environment host.pool s paths (watching host.terminal batches paths)

end Command

structure Outcome where
  exitCode : Nat
  output : String
  log : List Event
  opened : List Path
  crash : Option Crash

namespace Report

/-- The outcome of a report when only events from a level on are logged. -/
def outcome (report : Report) (terminal : Console.Terminal) (least : Level) : Outcome :=
  let log := report.session.log.filter fun event => least.number ≤ event.level.number
  match Console.renderAll terminal report.entries with
  | (output, none) => ⟨report.exitCode, output, log, report.opened, report.crash⟩
  | (output, some error) => ⟨1, output, log, report.opened, some (.markup error)⟩

end Report

inductive Ending where
  | usage (exitCode : Nat)
  | misuse
  | ran (outcome : Outcome)

def Request.fulfil (environment : Config.Environment) (batches : List Batch) (s : Session)
    (request : Request) (host : Host := .usual) : Ending :=
  match request with
  | .nothing => .usage 2
  | .help => .usage 0
  | .misuse => .misuse
  | .run verbosity command =>
    .ran ((command.run environment host batches s).outcome host.terminal
      (Level.ofVerbosity verbosity))

end SourceAtlas
