import SourceAtlas.FileKind
import SourceAtlas.Syntax.Node

/-! # Parsed files

The errors of a tree are its missing nodes and its `ERROR` nodes; the search does not go below a
reported node, nor below one that is said to hold no error. A script reports its top-level import
and export statements too, and orders all errors by the bytes they cover.
-/

namespace SourceAtlas

structure ParseError where
  fileId : Int
  message : String
  startByte : Int
  endByte : Int
deriving DecidableEq, Repr

inductive Complaint where
  | expected (type : String)
  | unexpected
  | moduleOnly (keyword : String)
deriving DecidableEq, Repr

namespace Complaint

def message : Complaint → String
  | expected type => "expected `" ++ type ++ "`"
  | unexpected => "unexpected token"
  | moduleOnly keyword => "`" ++ keyword ++ "` declarations are only allowed in modules"

def error (complaint : Complaint) (fileId : Int) (label : Label) : ParseError :=
  ⟨fileId, complaint.message, label.extent.startByte, label.extent.endByte⟩

end Complaint

/-- A missing node counts as such even if it is an `ERROR` node. -/
def Label.complaint? (label : Label) : Option Complaint :=
  if label.isMissing then some (.expected label.type)
  else if label.type = "ERROR" then some .unexpected
  else none

/-- Import and export statements are allowed in modules only. -/
def Label.moduleOnly? (label : Label) : Option Complaint :=
  if label.type = "import_statement" then some (.moduleOnly "import")
  else if label.type = "export_statement" then some (.moduleOnly "export")
  else none

namespace Tree

/-- The errors of the trees of a stack, in the order of their nodes. -/
def collect (fileId : Int) : List Tree → List ParseError
  | [] => []
  | node label children :: stack =>
    match label.complaint? with
    | some complaint => complaint.error fileId label :: collect fileId stack
    | none =>
      if label.hasError then collect fileId (children ++ stack) else collect fileId stack
termination_by stack => sizes stack
decreasing_by
  · simp only [sizes, size]
    omega
  · simp only [sizes, size, sizes_append]
    omega
  · simp only [sizes, size]
    omega

def errors (fileId : Int) (tree : Tree) : List ParseError :=
  collect fileId [tree]

/-- The errors of the top-level statements that only a module may have. -/
def moduleOnlyErrors (fileId : Int) (tree : Tree) : List ParseError :=
  tree.children.filterMap fun child =>
    child.label.moduleOnly?.map fun complaint => complaint.error fileId child.label

end Tree

/-- Errors are ordered by their start, those of one start by their end. -/
def ParseError.le (a b : ParseError) : Bool :=
  a.startByte < b.startByte || (a.startByte == b.startByte && a.endByte ≤ b.endByte)

structure ParsedFile where
  fileId : Int
  kind : FileKind
  root : SyntaxNode
  errors : List ParseError

namespace ParsedFile

def isOk (file : ParsedFile) : Bool :=
  file.errors.isEmpty

def ofModule (fileId : Int) (tree : Tree) : ParsedFile where
  fileId := fileId
  kind := .module
  root := tree.toNode fileId
  errors := tree.errors fileId

def ofScript (fileId : Int) (tree : Tree) : ParsedFile where
  fileId := fileId
  kind := .script
  root := tree.toNode fileId
  errors := (tree.errors fileId ++ tree.moduleOnlyErrors fileId).mergeSort ParseError.le

def ofTree (kind : FileKind) (fileId : Int) (tree : Tree) : ParsedFile :=
  match kind with
  | .script => ofScript fileId tree
  | .module => ofModule fileId tree

end ParsedFile

end SourceAtlas
