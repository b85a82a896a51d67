import SourceAtlas.FileSystem.Edit
import SourceAtlas.Value.Reading

/-! # Failures and log events -/

namespace SourceAtlas

inductive ReadError where
  | file (error : FileError)
  | encoding (malformed : Utf8.Malformed)
deriving DecidableEq, Repr

def ReadError.message : ReadError → String
  | file error => error.message
  | encoding malformed => malformed.message

/-- The text of the file at a path, its bytes taken as they are. -/
def FileSystem.readSource (fs : FileSystem) (path : Path) : Except ReadError String :=
  match fs.read path with
  | .error e => .error (.file e)
  | .ok bytes =>
    match Utf8.decode bytes with
    | .ok source => .ok source
    | .error malformed => .error (.encoding malformed)

inductive Failure where
  | file (error : FileError)
  | config (issues : List Issue)
  | kind (shown : String)
  | noCatalog (name : String)
  | noBatch (name : String)
  | noTree (source : String)
  | raised (message : String)
  | interrupted
deriving DecidableEq, Repr

namespace Failure

def message : Failure → String
  | file error => error.message
  | config issues => "; ".intercalate (issues.map (·.violation.message))
  | kind shown => shown ++ " is not a valid FileKind"
  | noCatalog name => "no catalog " ++ Text.quoted name
  | noBatch name => Text.quoted name
  | noTree source => Text.quoted source
  | raised message => message
  | interrupted => ""

end Failure

inductive Level where
  | debug
  | info
  | warning
  | error
deriving DecidableEq, Repr

namespace Level

def number : Level → Nat
  | debug => 10
  | info => 20
  | warning => 30
  | error => 40

def name : Level → String
  | debug => "DEBUG"
  | info => "INFO"
  | warning => "WARNING"
  | error => "ERROR"

def ofVerbosity (times : Int) : Level :=
  if 2 ≤ times then debug else if times = 1 then info else warning

end Level

inductive Event where
  | readFailed (path : Path) (error : ReadError)
  | loaded (count : Nat)
  | reloadFailed (path : Path) (error : ReadError)
  | refreshed (id : Int) (path : Path)
  | watchStarted (directory : Path)
  | watchStopped (directory : Path)
  | changesDetected (count : Nat)
  | callbackFailed (failure : Failure)
deriving DecidableEq, Repr

namespace Event

def level : Event → Level
  | readFailed _ _ | reloadFailed _ _ => .warning
  | loaded _ | watchStarted _ | watchStopped _ | changesDetected _ => .info
  | refreshed _ _ => .debug
  | callbackFailed _ => .error

def message : Event → String
  | readFailed path error => "failed to read file " ++ path.text ++ ": " ++ error.message
  | loaded count => "Loaded " ++ toString count ++ " file(s)"
  | reloadFailed path error =>
    "failed to reload the source code at `" ++ path.text ++ "`: " ++ error.message
  | refreshed id path => "Refreshed file " ++ toString id ++ " from " ++ path.text
  | watchStarted directory => "Watcher started for " ++ directory.text
  | watchStopped directory => "Watcher stopped for " ++ directory.text
  | changesDetected count => "Detected changes in " ++ toString count ++ " file(s)"
  | callbackFailed _ => "Error in watcher callback"

end Event

end SourceAtlas
