import SourceAtlas.FileSystem.Basic

/-! # Following paths

A path is followed from component to component. A link is replaced by its target, which goes on
from the link's directory or from the root; the number of links on the way is limited, so that
links in a circle come to an end. At every step the system may refuse to look a name up.
-/

namespace SourceAtlas.FileSystem

/-- Where a path leads: to an entry, by the chain of names that reaches it from the root without
links, or to a name that is free in an existing directory. -/
inductive Spot where
  | taken (chain : List String)
  | free (directory : List String) (name : String)
deriving DecidableEq, Repr

def maxLinks : Nat := 40

def maxName : Nat := 255

def maxPath : Nat := 4095

/-- The steps that the target of a link asks for; empty ones lead nowhere. -/
def stepsOf (target : String) : List String :=
  (target.toList.splitOn '/').map String.ofList

def stays (step : String) : Bool :=
  step == "" || step == "."

inductive Aim where
  | find
  | create
deriving DecidableEq, Repr

/-- Whether a name that is followed by other steps cannot be created: it is the last one, and the
slashes behind it ask for a directory. -/
def Aim.refuses (aim : Aim) (rest : List String) : Bool :=
  aim == .create && !rest.isEmpty && rest.all (· == "")

/-- Follows steps from the directory at `chain`. Every step needs a directory to start from, also
one that stays there. Above the root there is the root. -/
def follow (fs : FileSystem) (aim : Aim) : (links : Nat) → (chain : List String) → (steps : List String) →
    Except Refusal Spot
  | _, chain, [] => .ok (.taken chain)
  | links, chain, step :: rest =>
    match entryAt? fs.entries chain with
    | some (.directory listing) =>
      match fs.refuses chain (.find step) with
      | some refusal => .error refusal
      | none =>
        if stays step then follow fs aim links chain rest
        else if step = ".." then follow fs aim links chain.dropLast rest
        else if aim.refuses rest then .error .isDirectory
        else if maxName < step.utf8ByteSize then .error .nameTooLong
        else
          match Listing.find? listing step with
          | none => if rest.isEmpty then .ok (.free chain step) else .error .noEntry
          | some (.link target) =>
            match links with
            | 0 => .error .tooManyLinks
            | links + 1 =>
              follow fs aim links (if target.startsWith "/" then [] else chain)
                (stepsOf target ++ rest)
          | some _ => follow fs aim links (chain ++ [step]) rest
    | some _ => .error .notDirectory
    | none => .error .noEntry
termination_by links _ steps => (links, steps.length)

def origin (fs : FileSystem) : Anchor → List String
  | .here => fs.here
  | .root | .doubleRoot => []

def followPath (fs : FileSystem) (aim : Aim) (path : Path) : Except Refusal Spot :=
  fs.follow aim maxLinks (fs.origin path.anchor) path.parts

def spot (fs : FileSystem) (aim : Aim) (path : Path) : Except FileError Spot :=
  if path.text.contains '\x00' then .error .embeddedNul
  else if maxPath < path.text.utf8ByteSize then .error (.refused .nameTooLong path)
  else match fs.followPath aim path with
    | .ok spot => .ok spot
    | .error refusal => .error (.refused refusal path)

/-- The entry that a path leads to, links followed, and the chain of names that reaches it. -/
def reach (fs : FileSystem) (path : Path) : Except FileError (List String × Entry) :=
  match fs.spot .find path with
  | .ok (.taken chain) =>
    match entryAt? fs.entries chain with
    | some entry => .ok (chain, entry)
    | none => .error (.refused .noEntry path)
  | .ok (.free _ _) => .error (.refused .noEntry path)
  | .error e => .error e

def lookUp (fs : FileSystem) (path : Path) : Except FileError Entry :=
  (fs.reach path).map (·.2)

/-- Whether an error only means that there is nothing at a path. -/
def meansAbsent (error : FileError) : Bool :=
  match error with
  | .embeddedNul => true
  | .tooDeep => false
  | .refused refusal _ | .linkRefused refusal _ _ =>
    refusal == .noEntry || refusal == .notDirectory || refusal == .tooManyLinks

/-- The entry at a path, if there is one; other errors than absence are passed on. -/
def status (fs : FileSystem) (path : Path) : Except FileError (Option Entry) :=
  match fs.lookUp path with
  | .ok entry => .ok (some entry)
  | .error e => if meansAbsent e then .ok none else .error e

def read (fs : FileSystem) (path : Path) : Except FileError Bytes :=
  match fs.reach path with
  | .error e => .error e
  | .ok (chain, entry) =>
    match fs.refuses chain .read, entry with
    | some refusal, _ => .error (.refused refusal path)
    | none, .file bytes => .ok bytes
    | none, _ => .error (.refused .isDirectory path)

def isDirectory (fs : FileSystem) (path : Path) : Except FileError Bool :=
  match fs.status path with
  | .ok (some (.directory _)) => .ok true
  | .ok _ => .ok false
  | .error e => .error e

def isFile (fs : FileSystem) (path : Path) : Except FileError Bool :=
  match fs.status path with
  | .ok (some (.file _)) => .ok true
  | .ok _ => .ok false
  | .error e => .error e

end SourceAtlas.FileSystem
