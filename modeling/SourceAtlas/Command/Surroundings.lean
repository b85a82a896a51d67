import SourceAtlas.Session.Watcher
import SourceAtlas.Syntax.Preorder
import SourceAtlas.Text.Hex

/-! # Surroundings

What a command finds around it, as a text of lines whose fields are separated by tabs.

* `file`, a path and bytes; `directory` and a path; `link`, a path and a target.
* `tree` and the bytes of a text; the nodes of its tree follow in pre-order.
* `node`, a type, the first and last offset, the row and column of both, the number of children, and
  letters: `m` for a missing node, `e` for one with an error.
* `changed` and paths begin a batch of changes, which the files, directories and links after it are
  made with.

Bytes are in hexadecimal.
-/

namespace SourceAtlas

structure Surroundings where
  edits : List Edit := []
  trees : List (String × Tree) := []
  batches : List Batch := []

namespace Surroundings

/-- What the lines from some line on hold; the nodes belong to a tree further up. -/
structure Tail extends Surroundings where
  nodes : List (Label × Nat) := []

def readEdit? : List String → Option Edit
  | ["file", path, bytes] => (Bytes.ofHex? bytes).map (.write (Path.ofString path))
  | ["directory", path] => some (.makeDirectory (Path.ofString path))
  | ["link", path, target] => some (.link (Path.ofString path) target)
  | _ => none

def readSource? (bytes : String) : Option String :=
  (Bytes.ofHex? bytes).bind fun bytes => (Utf8.decode bytes).toOption

def readNode? : List String → Option (Label × Nat)
  | [type, start, stop, startRow, startColumn, stopRow, stopColumn, count, letters] =>
    match [start, stop, startRow, startColumn, stopRow, stopColumn, count].mapM Numeral.read with
    | .ok [start, stop, startRow, startColumn, stopRow, stopColumn, count] =>
      let extent : Extent := ⟨start, stop, ⟨startRow, startColumn⟩, ⟨stopRow, stopColumn⟩⟩
      let flags := letters.toList
      some (⟨type, extent, flags.contains 'm', flags.contains 'e'⟩, count.toNat)
    | _ => none
  | _ => none

def Tail.extend? (fields : List String) (tail : Tail) : Option Tail :=
  match fields with
  | [""] => some tail
  | "changed" :: paths =>
    some { tail with
      edits := [], batches := .changes tail.edits (paths.map Path.ofString) :: tail.batches }
  | ["tree", bytes] =>
    match readSource? bytes, Tree.ofPreorder? tail.nodes with
    | some source, some tree =>
      some { tail with nodes := [], trees := (source, tree) :: tail.trees }
    | _, _ => none
  | "node" :: fields => (readNode? fields).map fun node => { tail with nodes := node :: tail.nodes }
  | fields => (readEdit? fields).map fun edit => { tail with edits := edit :: tail.edits }

def fieldsOf (line : List Char) : List String :=
  (line.splitOn '\t').map String.ofList

/-- What lines hold, or the number of the last that cannot be read; the first is number
`number`. -/
def readLines (number : Nat) : (lines : List (List Char)) → Except Nat Tail
  | [] => .ok {}
  | line :: rest =>
    match readLines (number + 1) rest with
    | .error bad => .error bad
    | .ok tail =>
      match tail.extend? (fieldsOf line) with
      | some tail => .ok tail
      | none => .error number

def read (text : String) : Except Nat Surroundings :=
  (readLines 1 (text.toList.splitOn '\n')).map (·.toSurroundings)

def session (surroundings : Surroundings) : Except FileError Session :=
  match FileSystem.empty.applyAll surroundings.edits with
  | (_, some e) => .error e
  | (files, none) => .ok (.start files surroundings.trees)

end Surroundings

end SourceAtlas
