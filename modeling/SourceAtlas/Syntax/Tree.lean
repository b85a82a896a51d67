/-! # Syntax trees

The tree that a grammar finds in a text. Its flags are taken as given: a node may be missing from
the text, and it may be said to contain an error.
-/

namespace SourceAtlas

/-- A place in a text by row and column, both from zero. -/
structure Position where
  row : Int
  column : Int
deriving DecidableEq, Repr

structure Extent where
  startByte : Int
  endByte : Int
  startPoint : Position
  endPoint : Position
deriving DecidableEq, Repr

structure Label where
  type : String
  extent : Extent
  isMissing : Bool
  hasError : Bool
deriving DecidableEq, Repr

inductive Tree where
  | node (label : Label) (children : List Tree)

abbrev Grammar := String → Option Tree

namespace Tree

def label : Tree → Label
  | node label _ => label

def children : Tree → List Tree
  | node _ children => children

mutual

def size : Tree → Nat
  | node _ children => sizes children + 1
termination_by structural tree => tree

def sizes : List Tree → Nat
  | [] => 0
  | tree :: rest => tree.size + sizes rest
termination_by structural trees => trees

end

theorem sizes_append (first second : List Tree) :
    sizes (first ++ second) = sizes first + sizes second := by
  induction first with
  | nil => simp [sizes]
  | cons tree rest ih => simp [sizes, ih, Nat.add_assoc]

end Tree

end SourceAtlas
