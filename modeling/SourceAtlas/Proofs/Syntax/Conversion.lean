import SourceAtlas.Proofs.Syntax.Nodes
import SourceAtlas.Syntax.Node

/-! # Trees as tagged nodes

Whatever tasks are left and whatever is finished, to visit a tree is to finish the node that stands
for it, and nothing else. So the list of tasks makes of a tree what the recursion makes of it.
-/

namespace SourceAtlas

namespace SyntaxNode

theorem preorders_eq_flatMap (nodes : List SyntaxNode) :
    preorders nodes = nodes.flatMap preorder := by
  induction nodes with
  | nil => rfl
  | cons first rest ih => rw [preorders, ih, List.flatMap_cons]

end SyntaxNode

namespace Tree

variable {fileId : Int} {tree : Tree} {trees : List Tree}

theorem taggedAll_eq_map (fileId : Int) (trees : List Tree) :
    taggedAll fileId trees = trees.map (tagged fileId) := by
  induction trees with
  | nil => rfl
  | cons first rest ih => rw [taggedAll, ih, List.map_cons]

theorem tagged_node (fileId : Int) (label : Label) (children : List Tree) :
    (node label children).tagged fileId =
      .node fileId label.type label.extent
        (if children.isEmpty then none else some (children.map (tagged fileId))) := by
  cases children with
  | nil => rfl
  | cons child rest => rw [tagged, taggedAll_eq_map]; rfl

theorem convert_visits
    (h : ∀ tree ∈ trees, ∀ tasks finished, convert fileId (.visit tree :: tasks) finished =
      convert fileId tasks (tree.tagged fileId :: finished))
    (tasks : List Task) (finished : List SyntaxNode) :
    convert fileId (trees.map .visit ++ tasks) finished =
      convert fileId tasks ((trees.map (tagged fileId)).reverse ++ finished) := by
  induction trees generalizing finished with
  | nil => rfl
  | cons first rest ih =>
    obtain ⟨hf, hr⟩ := List.forall_mem_cons.mp h
    rw [List.map_cons, List.cons_append, hf, ih hr, List.map_cons, List.reverse_cons,
      List.append_assoc, List.singleton_append]

/-- When the children of a node are finished they are the last ones that are, as many as the node is
built of. -/
theorem convert_visit (fileId : Int) (tree : Tree) (tasks : List Task)
    (finished : List SyntaxNode) :
    convert fileId (.visit tree :: tasks) finished =
      convert fileId tasks (tree.tagged fileId :: finished) := by
  induction tree using induction generalizing tasks finished with
  | node label children ih =>
    cases children with
    | nil => rw [convert, tagged]
    | cons child rest =>
      have hl : ((child :: rest).map (tagged fileId)).reverse.length = rest.length + 1 := by
        rw [List.length_reverse, List.length_map, List.length_cons]
      rw [convert, convert_visits ih, convert, List.take_left' hl, List.drop_left' hl,
        List.reverse_reverse, tagged_node]
      rfl

theorem convert_eq (fileId : Int) (tree : Tree) :
    convert fileId [.visit tree] [] = [tree.tagged fileId] := by
  rw [convert_visit, convert]

theorem toNode_eq_tagged (fileId : Int) (tree : Tree) :
    tree.toNode fileId = tree.tagged fileId := by
  rw [toNode, convert_eq]

/-- What is kept of a node, with the number of its children if it has any. -/
theorem preorder_tagged (fileId : Int) (tree : Tree) :
    (tree.tagged fileId).preorder.map
        (fun node => (node.fileId, node.type, node.extent, node.children.map List.length)) =
      tree.preorder.map fun (label, count) =>
        (fileId, label.type, label.extent, if count = 0 then none else some count) := by
  induction tree using induction with
  | node label children ih =>
    rw [tagged_node, preorder, preorders_eq_flatMap, List.map_cons, List.map_flatMap]
    cases children with
    | nil => rfl
    | cons child rest =>
      rw [List.isEmpty_cons, if_neg Bool.false_ne_true, SyntaxNode.preorder,
        SyntaxNode.preorders_eq_flatMap, List.map_cons, List.flatMap_map, List.map_flatMap,
        List.flatMap_congr fun child hc => ih child hc]
      simp [SyntaxNode.fileId, SyntaxNode.type, SyntaxNode.extent, SyntaxNode.children]

/-- The list of tasks leaves one finished node and nothing else, and it is the node that recursion
makes of the tree: at its root what the tree has there, tagged by the id of the file, with the nodes
of the children in their order, or without a list of them if there are none. So all nodes, in
pre-order, are those of the tree. -/
theorem convert_of_tree (fileId : Int) (tree : Tree) :
    convert fileId [.visit tree] [] = [tree.toNode fileId] ∧
      tree.toNode fileId = tree.tagged fileId ∧
      tree.toNode fileId = .node fileId tree.label.type tree.label.extent
        (if tree.children.isEmpty then none else some (tree.children.map (toNode fileId))) ∧
      (tree.toNode fileId).preorder.map
          (fun node => (node.fileId, node.type, node.extent, node.children.map List.length)) =
        tree.preorder.map fun (label, count) =>
          (fileId, label.type, label.extent, if count = 0 then none else some count) := by
  have hnode : toNode fileId = tagged fileId := funext (toNode_eq_tagged fileId)
  rw [hnode]
  refine ⟨convert_eq fileId tree, rfl, ?_, preorder_tagged fileId tree⟩
  cases tree with
  | node label children => exact tagged_node fileId label children

end Tree

end SourceAtlas
