import Mathlib.Tactic
import SourceAtlas.Syntax.Preorder

/-! # Nodes of a tree

What holds of a tree when it holds of the children of its root holds of every tree. The nodes of a
tree are listed in pre-order, each with the labels of the nodes that it lies below.
-/

namespace SourceAtlas.Tree

mutual

@[elab_as_elim]
theorem induction {motive : Tree → Prop}
    (node : ∀ label children, (∀ child ∈ children, motive child) → motive (.node label children)) :
    ∀ tree, motive tree
  | .node label children => node label children (forall_induction node children)
termination_by structural tree => tree

theorem forall_induction {motive : Tree → Prop}
    (node : ∀ label children, (∀ child ∈ children, motive child) → motive (.node label children)) :
    ∀ trees : List Tree, ∀ tree ∈ trees, motive tree
  | [] => nofun
  | first :: rest =>
    List.forall_mem_cons.mpr ⟨induction node first, forall_induction node rest⟩
termination_by structural trees => trees

end

theorem preorders_eq_flatMap (trees : List Tree) : preorders trees = trees.flatMap preorder := by
  induction trees with
  | nil => rfl
  | cons first rest ih => rw [preorders, ih, List.flatMap_cons]

/-- A node with all below it, and the labels of the nodes that it lies below, the nearest first. -/
structure Occurrence where
  above : List Label
  tree : Tree

mutual

def occurrences (above : List Label) : Tree → List Occurrence
  | node label children =>
    ⟨above, node label children⟩ :: occurrencesAll (label :: above) children
termination_by structural tree => tree

def occurrencesAll (above : List Label) : List Tree → List Occurrence
  | [] => []
  | tree :: rest => tree.occurrences above ++ occurrencesAll above rest
termination_by structural trees => trees

end

variable {above : List Label} {tree : Tree} {occurrence : Occurrence}

theorem occurrencesAll_eq_flatMap (above : List Label) (trees : List Tree) :
    occurrencesAll above trees = trees.flatMap (occurrences above) := by
  induction trees with
  | nil => rfl
  | cons first rest ih => rw [occurrencesAll, ih, List.flatMap_cons]

theorem occurrences_node (above : List Label) (label : Label) (children : List Tree) :
    (node label children).occurrences above =
      ⟨above, node label children⟩ :: children.flatMap (occurrences (label :: above)) := by
  rw [occurrences, occurrencesAll_eq_flatMap]

theorem map_label_occurrences (above : List Label) (tree : Tree) :
    (tree.occurrences above).map (·.tree.label) = tree.preorder.map (·.1) := by
  induction tree using induction generalizing above with
  | node label children ih =>
    rw [occurrences_node, preorder, preorders_eq_flatMap, List.map_cons, List.map_cons,
      List.map_flatMap, List.map_flatMap]
    exact congrArg _ (List.flatMap_congr fun child hc => ih child hc _)

/-- Below a node, the labels above it and its own are kept. -/
theorem suffix_of_mem_occurrences (h : occurrence ∈ tree.occurrences above) :
    above <:+ occurrence.above := by
  induction tree using induction generalizing above with
  | node label children ih =>
    rw [occurrences_node] at h
    rcases List.mem_cons.mp h with rfl | h
    · exact List.suffix_rfl
    · obtain ⟨child, hc, ho⟩ := List.mem_flatMap.mp h
      exact (List.suffix_cons label above).trans (ih child hc ho)

/-! ## Parts -/

/-- The nodes of a tree in pre-order, each with all below it. -/
def subtrees (tree : Tree) : List Tree :=
  (tree.occurrences []).map (·.tree)

theorem map_tree_occurrences (above : List Label) (tree : Tree) :
    (tree.occurrences above).map (·.tree) = tree.subtrees := by
  suffices h : ∀ other, (tree.occurrences above).map (·.tree) =
      (tree.occurrences other).map (·.tree) from h []
  induction tree using induction generalizing above with
  | node label children ih =>
    intro other
    rw [occurrences_node, occurrences_node, List.map_cons, List.map_cons, List.map_flatMap,
      List.map_flatMap]
    exact congrArg _ (List.flatMap_congr fun child hc => ih child hc _ _)

theorem subtrees_node (label : Label) (children : List Tree) :
    (node label children).subtrees = node label children :: children.flatMap subtrees := by
  rw [subtrees, occurrences_node, List.map_cons, List.map_flatMap]
  exact congrArg _ (List.flatMap_congr fun child _ => map_tree_occurrences _ child)

theorem self_mem_subtrees (tree : Tree) : tree ∈ tree.subtrees := by
  cases tree with
  | node label children =>
    rw [subtrees_node]
    exact List.mem_cons_self

theorem tree_mem_subtrees (h : occurrence ∈ tree.occurrences above) :
    occurrence.tree ∈ tree.subtrees :=
  map_tree_occurrences above tree ▸ List.mem_map_of_mem h

/-- A label above a node is that of a tree which the node is in. -/
theorem exists_subtree_of_mem_above {label : Label} (h : occurrence ∈ tree.occurrences above)
    (hl : label ∈ occurrence.above) :
    label ∈ above ∨
      ∃ part ∈ tree.subtrees, part.label = label ∧ occurrence.tree ∈ part.subtrees := by
  induction tree using induction generalizing above with
  | node root children ih =>
    have hin := tree_mem_subtrees h
    rw [occurrences_node] at h
    rcases List.mem_cons.mp h with rfl | h
    · exact Or.inl hl
    · obtain ⟨child, hc, ho⟩ := List.mem_flatMap.mp h
      rcases ih child hc ho with ha | ⟨part, hp, he⟩
      · rcases List.mem_cons.mp ha with rfl | ha
        · exact Or.inr ⟨_, self_mem_subtrees _, rfl, hin⟩
        · exact Or.inl ha
      · refine Or.inr ⟨part, ?_, he⟩
        rw [subtrees_node]
        exact List.mem_cons_of_mem _ (List.mem_flatMap.mpr ⟨child, hc, hp⟩)

end SourceAtlas.Tree
