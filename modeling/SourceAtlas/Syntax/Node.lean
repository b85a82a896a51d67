import SourceAtlas.Syntax.Tree

/-! # Tagged nodes

The nodes that a parsed file is made of carry the id of their file. A tree is turned into nodes
with a list of tasks and a stack of finished nodes, so that no depth is too great; `Tree.tagged`
says by recursion what comes out.
-/

namespace SourceAtlas

/-- A node without children has no list of them. -/
inductive SyntaxNode where
  | node (fileId : Int) (type : String) (extent : Extent) (children : Option (List SyntaxNode))

namespace SyntaxNode

def fileId : SyntaxNode → Int
  | node id _ _ _ => id

def type : SyntaxNode → String
  | node _ type _ _ => type

def extent : SyntaxNode → Extent
  | node _ _ extent _ => extent

def children : SyntaxNode → Option (List SyntaxNode)
  | node _ _ _ children => children

mutual

def preorder : SyntaxNode → List SyntaxNode
  | node id type extent none => [node id type extent none]
  | node id type extent (some children) => node id type extent (some children) :: preorders children
termination_by structural n => n

def preorders : List SyntaxNode → List SyntaxNode
  | [] => []
  | n :: rest => n.preorder ++ preorders rest
termination_by structural ns => ns

end

end SyntaxNode

namespace Tree

mutual

/-- The tree with every node tagged by the id of its file. -/
def tagged (fileId : Int) : Tree → SyntaxNode
  | node label [] => .node fileId label.type label.extent none
  | node label (child :: rest) =>
    .node fileId label.type label.extent (some (child.tagged fileId :: taggedAll fileId rest))
termination_by structural tree => tree

def taggedAll (fileId : Int) : List Tree → List SyntaxNode
  | [] => []
  | tree :: rest => tree.tagged fileId :: taggedAll fileId rest
termination_by structural trees => trees

end

/-- Something left to do: open a tree, or make a node of the last `count` finished ones. -/
inductive Task where
  | visit (tree : Tree)
  | build (label : Label) (count : Nat)

namespace Task

def weight : Task → Nat
  | visit tree => 2 * tree.size
  | build _ _ => 1

def weights : List Task → Nat
  | [] => 0
  | task :: rest => task.weight + weights rest

theorem weights_visits (trees : List Tree) (tasks : List Task) :
    weights (trees.map visit ++ tasks) = 2 * sizes trees + weights tasks := by
  induction trees with
  | nil => simp [sizes]
  | cons tree rest ih =>
    simp only [List.map_cons, List.cons_append, weights, weight, sizes, ih]
    omega

end Task

/-- Works off the tasks; `finished` holds the finished nodes, the last one first. -/
def convert (fileId : Int) : List Task → (finished : List SyntaxNode) → List SyntaxNode
  | [], finished => finished
  | .visit (node label []) :: tasks, finished =>
    convert fileId tasks (.node fileId label.type label.extent none :: finished)
  | .visit (node label (child :: rest)) :: tasks, finished =>
    convert fileId ((child :: rest).map .visit ++ .build label (rest.length + 1) :: tasks) finished
  | .build label count :: tasks, finished =>
    convert fileId tasks
      (.node fileId label.type label.extent (some (finished.take count).reverse) ::
        finished.drop count)
termination_by tasks => Task.weights tasks
decreasing_by
  · simp [Task.weights, Task.weight, size]
  · simp only [Task.weights_visits, Task.weights, Task.weight, size]
    omega
  · simp [Task.weights, Task.weight]

/-- The nodes of a tree, tagged by the id of its file. -/
def toNode (fileId : Int) (tree : Tree) : SyntaxNode :=
  match convert fileId [.visit tree] [] with
  | root :: _ => root
  | [] => .node fileId tree.label.type tree.label.extent none

end Tree

end SourceAtlas
