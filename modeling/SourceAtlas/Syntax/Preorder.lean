import SourceAtlas.Syntax.Tree

/-! # Trees in pre-order

A tree is written as the list of its labels, each before those of its children and with their
number. Reading the list from its end finds the children of every label already made.
-/

namespace SourceAtlas.Tree

mutual

def preorder : Tree → List (Label × Nat)
  | node label children => (label, children.length) :: preorders children
termination_by structural tree => tree

def preorders : List Tree → List (Label × Nat)
  | [] => []
  | tree :: rest => tree.preorder ++ preorders rest
termination_by structural trees => trees

end

/-- Makes the first of some trees the children of a new one. -/
def gather (entry : Label × Nat) (trees : List Tree) : List Tree :=
  .node entry.1 (trees.take entry.2) :: trees.drop entry.2

def forest (entries : List (Label × Nat)) : List Tree :=
  entries.foldr gather []

def ofPreorder? (entries : List (Label × Nat)) : Option Tree :=
  match forest entries with
  | [tree] => some tree
  | _ => none

end SourceAtlas.Tree
