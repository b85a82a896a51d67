/-! # Paths

A path is an anchor and a list of components. Empty components and single dots are dropped when a
text is read, double dots are kept, so that two texts name the same path when they differ only in
these. Two leading slashes, unlike three, are an anchor of their own.
-/

namespace SourceAtlas

inductive Anchor where
  | here
  | root
  | doubleRoot
deriving DecidableEq, Repr

def Anchor.text : Anchor → String
  | .here => ""
  | .root => "/"
  | .doubleRoot => "//"

structure Path where
  anchor : Anchor
  parts : List String
deriving DecidableEq, Repr

/-- The text after the last dot of a name, if that dot is neither its first nor its last
character; else nothing. -/
def extensionOf (name : List Char) : List Char :=
  match name.reverse.dropWhile (· ≠ '.') with
  | _ :: _ :: _ => (name.reverse.takeWhile (· ≠ '.')).reverse
  | _ => []

namespace Path

def anchorOf : List Char → Anchor
  | '/' :: '/' :: '/' :: _ => .root
  | '/' :: '/' :: _ => .doubleRoot
  | '/' :: _ => .root
  | _ => .here

def isKept (part : List Char) : Bool :=
  part ≠ [] && part ≠ ['.']

def ofString (text : String) : Path where
  anchor := anchorOf text.toList
  parts := ((text.toList.splitOn '/').filter isKept).map String.ofList

/-- The text of a path; the path with no anchor and no component is a dot. -/
def text (path : Path) : String :=
  if path.anchor = .here ∧ path.parts = [] then "."
  else path.anchor.text ++ "/".intercalate path.parts

instance : ToString Path := ⟨text⟩

def name (path : Path) : String :=
  path.parts.getLast?.getD ""

def extension (path : Path) : String :=
  String.ofList (extensionOf path.name.toList)

def parent (path : Path) : Path :=
  { path with parts := path.parts.dropLast }

def child (path : Path) (entry : String) : Path :=
  { path with parts := path.parts ++ [entry] }

/-- The components that paths are ordered by, a path's anchor being the first of them. -/
def sortKey (path : Path) : List String :=
  match path.anchor with
  | .here => path.parts
  | anchor => anchor.text :: path.parts

/-- Paths are ordered by their components, not by their texts. -/
def le (a b : Path) : Bool :=
  !decide (b.sortKey < a.sortKey)

def sorted (paths : List Path) : List Path :=
  (paths.mergeSort le).eraseDups

end Path

end SourceAtlas
