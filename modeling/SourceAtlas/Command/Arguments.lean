import SourceAtlas.Number.Numeral
import SourceAtlas.Path

/-! # Command-line arguments

Options of the whole program come first, then the name of a command, then its own options and
arguments in any order. Two dashes end the options; one dash alone is an argument.
-/

namespace SourceAtlas

inductive Command where
  | files (paths : List Path)
  | locate (path : Path) (offset : Nat)
  | parse (paths : List Path)
  | watch (paths : List Path)
deriving DecidableEq, Repr

inductive Request where
  | nothing
  | help
  | misuse
  | run (verbosity : Nat) (command : Command)
deriving DecidableEq, Repr

namespace Arguments

def isOption (argument : String) : Bool :=
  match argument.toList with
  | '-' :: _ :: _ => true
  | _ => false

/-- The options that an argument stands for, by their letters; short ones may be joined. -/
def letters? (argument : String) : Option (List Char) :=
  match argument with
  | "--help" => some ['h']
  | "--verbose" => some ['v']
  | argument =>
    match argument.toList with
    | '-' :: '-' :: _ => none
    | '-' :: letters => some letters
    | _ => none

/-- The options before the first argument that is none, and what follows them. -/
def leading : List String → Option (List Char × List String)
  | [] => some ([], [])
  | argument :: rest =>
    if argument = "--" then some ([], rest)
    else if isOption argument then
      match letters? argument, leading rest with
      | some letters, some (more, rest) => some (letters ++ more, rest)
      | _, _ => none
    else some ([], argument :: rest)

def scattered : List String → Option (List Char × List String)
  | [] => some ([], [])
  | argument :: rest =>
    if argument = "--" then some ([], rest)
    else if isOption argument then
      match letters? argument, scattered rest with
      | some letters, some (more, rest) => some (letters ++ more, rest)
      | _, _ => none
    else (scattered rest).map fun (letters, rest) => (letters, argument :: rest)

/-- The path that an argument names; none is named with a NUL character. -/
def path? (argument : String) : Option Path :=
  if argument.contains '\x00' then none else some (Path.ofString argument)

/-- An offset is a numeral that is not negative. -/
def offset? (argument : String) : Option Nat :=
  match Numeral.read argument with
  | .ok n => if 0 ≤ n then some n.toNat else none
  | .error _ => none

def command? (name : String) (arguments : List String) : Option Command :=
  match name, arguments with
  | "files", _ :: _ => (arguments.mapM path?).map .files
  | "parse", _ :: _ => (arguments.mapM path?).map .parse
  | "watch", _ :: _ => (arguments.mapM path?).map .watch
  | "locate", [path, offset] =>
    match path? path, offset? offset with
    | some path, some offset => some (.locate path offset)
    | _, _ => none
  | _, _ => none

def commandNames : List String := ["files", "locate", "parse", "watch"]

def requestOf (verbosity : Nat) : List String → Request
  | [] => .misuse
  | name :: arguments =>
    if !commandNames.contains name then .misuse
    else
      match scattered arguments with
      | none => .misuse
      | some (letters, arguments) =>
        if letters.any (· != 'h') then .misuse
        else if !letters.isEmpty then .help
        else match command? name arguments with
          | some command => .run verbosity command
          | none => .misuse

def read (arguments : List String) : Request :=
  if arguments.isEmpty then .nothing
  else
    match leading arguments with
    | none => .misuse
    | some (letters, rest) =>
      if letters.any fun c => c != 'h' && c != 'v' then .misuse
      else if letters.contains 'h' then .help
      else requestOf (letters.count 'v') rest

end Arguments

end SourceAtlas
