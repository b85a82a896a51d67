import SourceAtlas.FileSystem.Resolve

/-! # Changes to a file tree -/

namespace SourceAtlas

inductive Edit where
  | write (path : Path) (bytes : Bytes)
  | makeDirectory (path : Path)
  | link (path : Path) (target : String)
  | remove (path : Path)
deriving DecidableEq, Repr

namespace FileSystem

def put (fs : FileSystem) (directory : List String) (name : String) (entry : Entry)
    (distinct : entry.Distinct) : FileSystem :=
  { fs with
    entries := update (Listing.insert name entry) fs.entries directory
    distinct :=
      distinct_update (fun _ h => Listing.distinct_insert h distinct) fs.distinct directory }

def drop (fs : FileSystem) (directory : List String) (name : String) : FileSystem :=
  { fs with
    entries := update (Listing.erase name) fs.entries directory
    distinct := distinct_update (fun _ h => Listing.distinct_erase h) fs.distinct directory }

/-- The directory and the name of a path whose last component is not followed. -/
def place (fs : FileSystem) (path : Path) : Except FileError (List String × String) :=
  if path.text.contains '\x00' then .error .embeddedNul
  else match fs.spot .find path.parent with
  | .error (.refused refusal _) => .error (.refused refusal path)
  | .error e => .error e
  | .ok (.free _ _) => .error (.refused .noEntry path)
  | .ok (.taken chain) =>
    match entryAt? fs.entries chain with
    | some (.directory _) =>
      if maxName < path.name.utf8ByteSize ∨ maxPath < path.text.utf8ByteSize then
        .error (.refused .nameTooLong path)
      else .ok (chain, path.name)
    | _ => .error (.refused .notDirectory path)

def makeDirectory (fs : FileSystem) (path : Path) : Except FileError FileSystem :=
  match fs.place path with
  | .error e => .error e
  | .ok (directory, name) =>
    if name = "" ∨ name = ".." ∨ (entryAt? fs.entries (directory ++ [name])).isSome then
      .error (.refused .alreadyExists path)
    else .ok (fs.put directory name (.directory []) Entry.distinct_empty)

/-- What an attempted change leaves, and why it failed. -/
def attempt (fs : FileSystem) : Except FileError FileSystem → FileSystem × Option FileError
  | .ok changed => (changed, none)
  | .error e => (fs, some e)

def ensureDirectory (fs : FileSystem) (path : Path) : FileSystem × Option FileError :=
  match fs.makeDirectory path, fs.isDirectory path with
  | .error (.refused _ _), .ok true => (fs, none)
  | .error (.refused _ _), .error e => (fs, some e)
  | made, _ => fs.attempt made

/-- Makes the directory at a path that is given backwards. The directories that lead to it are made
only if it cannot be made without them. -/
def makeDirectories (fs : FileSystem) (anchor : Anchor) : (reversed : List String) →
    FileSystem × Option FileError
  | [] => (fs, none)
  | name :: outer =>
    let path : Path := ⟨anchor, (name :: outer).reverse⟩
    match fs.ensureDirectory path with
    | (fs, some (.refused .noEntry _)) =>
      match makeDirectories fs anchor outer with
      | (fs, none) => fs.ensureDirectory path
      | failed => failed
    | made => made

def makeDirectoryAt (fs : FileSystem) (path : Path) : FileSystem × Option FileError :=
  fs.makeDirectories path.anchor path.parts.reverse

/-- Writes a file into a directory that is there, through a link if there is one at its path. -/
def write (fs : FileSystem) (path : Path) (bytes : Bytes) : Except FileError FileSystem :=
  match fs.spot .create path with
  | .error e => .error e
  | .ok (.free directory name) => .ok (fs.put directory name (.file bytes) (.file bytes))
  | .ok (.taken chain) =>
    match entryAt? fs.entries chain, chain.getLast? with
    | some (.file _), some name => .ok (fs.put chain.dropLast name (.file bytes) (.file bytes))
    | _, _ => .error (.refused .isDirectory path)

/-- Why no link can have a target, whatever its path is. -/
def targetRefusal? (target : String) : Option Refusal :=
  if target = "" then some .noEntry
  else if maxPath < target.utf8ByteSize then some .nameTooLong
  else none

/-- Makes a link in a directory that is there; whether its target exists does not matter. -/
def link (fs : FileSystem) (path : Path) (target : String) : Except FileError FileSystem :=
  if target.contains '\x00' ∨ path.text.contains '\x00' then .error .embeddedNul
  else match targetRefusal? target, fs.place path with
    | some refusal, _ => .error (.linkRefused refusal target path)
    | none, .error (.refused refusal _) => .error (.linkRefused refusal target path)
    | none, .error e => .error e
    | none, .ok (directory, name) =>
      match entryAt? fs.entries (directory ++ [name]) with
      | some _ => .error (.linkRefused .alreadyExists target path)
      | none => .ok (fs.put directory name (.link target) (.link target))

def remove (fs : FileSystem) (path : Path) : Except FileError FileSystem :=
  match fs.place path with
  | .error e => .error e
  | .ok (directory, name) =>
    match entryAt? fs.entries (directory ++ [name]) with
    | some _ => .ok (fs.drop directory name)
    | none => .error (.refused .noEntry path)

def inParent (fs : FileSystem) (path : Path)
    (change : FileSystem → Except FileError FileSystem) : FileSystem × Option FileError :=
  match fs.makeDirectoryAt path.parent with
  | (fs, none) => fs.attempt (change fs)
  | failed => failed

/-- Makes a change. One that fails may have made directories by then. -/
def apply (fs : FileSystem) : Edit → FileSystem × Option FileError
  | .write path bytes => fs.inParent path (·.write path bytes)
  | .makeDirectory path => fs.makeDirectoryAt path
  | .link path target => fs.inParent path (·.link path target)
  | .remove path => fs.attempt (fs.remove path)

/-- Makes changes one after the other, up to the first that fails. -/
def applyAll (fs : FileSystem) : List Edit → FileSystem × Option FileError
  | [] => (fs, none)
  | edit :: rest =>
    match fs.apply edit with
    | (fs, none) => fs.applyAll rest
    | failed => failed

end FileSystem

end SourceAtlas
