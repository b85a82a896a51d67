import SourceAtlas.FileSystem.Resolve

/-! # Walking a directory

A walk yields the files of a directory in the order in which they are listed and then walks its
directories, in that order too. Links are not descended into; one that leads to a directory is
passed over, any other counts as a file. Skipped names are left out with all that is below them, and
so is what is in a directory that cannot be listed. What goes wrong otherwise is an item of the walk
like what it finds; whoever takes the items stops there.
-/

namespace SourceAtlas.FileSystem

/-- The number of bytes by which the text that an entry is asked for with is longer than that of its
path: below the working directory it begins with a dot and a slash. -/
def leadOf (root : Path) : Nat :=
  if root.text = "." then 2 else 0

def isTooLong (lead : Nat) (seen : Path) : Bool :=
  maxPath < lead + seen.text.utf8ByteSize

def lists (fs : FileSystem) (lead : Nat) (seen : Path) : Bool :=
  !isTooLong lead seen &&
    match fs.reach seen with
    | .ok (chain, .directory _) => (fs.refuses chain .list).isNone
    | _ => false

def countsAsFile (fs : FileSystem) (lead : Nat) (seen : Path) : Entry → Bool
  | .file _ => true
  | .directory _ => false
  | .link _ =>
    isTooLong lead seen ||
      match fs.isDirectory seen with
      | .ok isDirectory => !isDirectory
      | .error _ => true

def filesIn (fs : FileSystem) (skips : String → Bool) (lead : Nat) (seen : Path)
    (listing : Listing) : List Path :=
  listing.filterMap fun (name, entry) =>
    if !skips name && fs.countsAsFile lead (seen.child name) entry then some (seen.child name)
    else none

def hasMore (fs : FileSystem) (skips : String → Bool) (lead : Nat) (seen : Path)
    (listing : Listing) : Bool :=
  listing.any fun (name, entry) => !skips name && !fs.countsAsFile lead (seen.child name) entry

/-- Whether nothing in a directory so many levels below the root can be walked. -/
def isDeepest (fs : FileSystem) (level : Nat) : Bool :=
  fs.depth.any (· ≤ level)

mutual

def walkEntry (fs : FileSystem) (skips : String → Bool) (lead level : Nat) (seen : Path) :
    Entry → List (Except FileError Path)
  | .directory listing =>
    if fs.lists lead seen then
      (fs.filesIn skips lead seen listing).map .ok ++
        if fs.isDeepest level && fs.hasMore skips lead seen listing then [.error .tooDeep]
        else walkListing fs skips lead level seen listing
    else []
  | .file _ => []
  | .link _ => []
termination_by structural entry => entry

def walkListing (fs : FileSystem) (skips : String → Bool) (lead level : Nat) (seen : Path) :
    List (String × Entry) → List (Except FileError Path)
  | [] => []
  | (name, entry) :: rest =>
    (if skips name then []
      else walkEntry fs skips lead (level + 1) (seen.child name) entry) ++
      walkListing fs skips lead level seen rest
termination_by structural listing => listing

end

/-- The files at and below a root path, which is followed if it is a link. -/
def walk (fs : FileSystem) (skips : String → Bool) (root : Path) : List (Except FileError Path) :=
  if skips root.name then []
  else match fs.status root with
    | .ok (some (.directory listing)) =>
      fs.walkEntry skips (leadOf root) 0 root (.directory listing)
    | .ok (some _) => [.ok root]
    | .ok none => []
    | .error e => [.error e]

/-- The items of a walk up to the first error, and that error. -/
def upToError {ε α : Type} : List (Except ε α) → List α × Option ε
  | [] => ([], none)
  | .ok item :: rest => (item :: (upToError rest).1, (upToError rest).2)
  | .error e :: _ => ([], some e)

end SourceAtlas.FileSystem
