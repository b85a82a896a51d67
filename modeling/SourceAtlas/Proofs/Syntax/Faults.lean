import SourceAtlas.Proofs.Syntax.Nodes
import SourceAtlas.Syntax.Parsed

/-! # Faults of a tree

A node is faulty if it is missing or an error. The search for errors reports the faulty nodes that
lie below none but open ones, which are not faulty and are said to hold an error. If the flags tell
the truth, these are the outermost faulty nodes, and a tree without errors has no faulty node.
-/

namespace SourceAtlas

namespace Label

variable {label : Label} {fileId : Int}

def IsFaulty (label : Label) : Prop :=
  label.isMissing ∨ label.type = "ERROR"

instance : DecidablePred IsFaulty := fun _ => inferInstanceAs (Decidable (_ ∨ _))

def IsOpen (label : Label) : Prop :=
  ¬label.IsFaulty ∧ label.hasError

instance : DecidablePred IsOpen := fun _ => inferInstanceAs (Decidable (_ ∧ _))

def fault (fileId : Int) (label : Label) : ParseError where
  fileId := fileId
  message := if label.isMissing then "expected `" ++ label.type ++ "`" else "unexpected token"
  startByte := label.extent.startByte
  endByte := label.extent.endByte

theorem complaint?_eq_none (h : ¬label.IsFaulty) : label.complaint? = none := by
  obtain ⟨hm, ht⟩ := not_or.mp h
  rw [complaint?, if_neg hm, if_neg ht]

theorem exists_complaint (h : label.IsFaulty) : ∃ complaint, label.complaint? = some complaint ∧
    ∀ fileId, complaint.error fileId label = label.fault fileId := by
  by_cases hm : label.isMissing
  · exact ⟨.expected label.type, by rw [complaint?, if_pos hm],
      fun _ => by rw [fault, if_pos hm]; rfl⟩
  · have ht : label.type = "ERROR" := h.resolve_left hm
    exact ⟨.unexpected, by rw [complaint?, if_neg hm, if_pos ht],
      fun _ => by rw [fault, if_neg hm]; rfl⟩

end Label

namespace Tree

open Label (IsFaulty IsOpen)

variable {fileId : Int} {above : List Label} {tree : Tree} {label : Label}

/-! ## The search -/

theorem collect_append (fileId : Int) (first second : List Tree) :
    collect fileId (first ++ second) = collect fileId first ++ collect fileId second := by
  fun_induction collect fileId first with
  | case1 => rfl
  | case2 label children stack complaint hc ih =>
    rw [List.cons_append, collect, hc]
    exact congrArg _ ih
  | case3 label children stack hc hopen ih =>
    rw [List.cons_append, collect, hc, if_pos hopen, ← List.append_assoc]
    exact ih
  | case4 label children stack hc hopen ih =>
    rw [List.cons_append, collect, hc, if_neg hopen]
    exact ih

theorem collect_eq_flatMap (fileId : Int) (trees : List Tree) :
    collect fileId trees = trees.flatMap (errors fileId) := by
  induction trees with
  | nil => rw [collect, List.flatMap_nil]
  | cons first rest ih =>
    rw [← List.singleton_append, collect_append, ih, List.singleton_append, List.flatMap_cons]
    rfl

/-- The errors of a tree by recursion. -/
theorem errors_node (fileId : Int) (label : Label) (children : List Tree) :
    (node label children).errors fileId =
      if label.IsFaulty then [label.fault fileId]
      else if label.hasError then children.flatMap (errors fileId) else [] := by
  rw [errors, collect]
  by_cases hf : label.IsFaulty
  · obtain ⟨complaint, hc, hfault⟩ := Label.exists_complaint hf
    rw [hc, if_pos hf, ← hfault, collect]
  · rw [Label.complaint?_eq_none hf, if_neg hf, List.append_nil, collect_eq_flatMap fileId children,
      collect]

/-! ## Reported nodes -/

/-- Whether a node is faulty and all above it are open. -/
def Occurrence.IsReported (occurrence : Occurrence) : Prop :=
  occurrence.tree.label.IsFaulty ∧
    ∀ label ∈ occurrence.above, ¬label.IsFaulty ∧ label.hasError

instance : DecidablePred Occurrence.IsReported := fun _ => inferInstanceAs (Decidable (_ ∧ _))

def Occurrence.IsOutermost (occurrence : Occurrence) : Prop :=
  occurrence.tree.label.IsFaulty ∧ ∀ label ∈ occurrence.above, ¬label.IsFaulty

instance : DecidablePred Occurrence.IsOutermost := fun _ => inferInstanceAs (Decidable (_ ∧ _))

theorem filter_occurrences_of_not_isOpen (hl : label ∈ above) (hc : ¬label.IsOpen) :
    (tree.occurrences above).filter (·.IsReported) = [] := by
  refine List.filter_eq_nil_iff.mpr fun occurrence ho => ?_
  have hmem : label ∈ occurrence.above := (suffix_of_mem_occurrences ho).subset hl
  exact fun hr => hc ((of_decide_eq_true hr).2 label hmem)

theorem errors_eq (h : ∀ label ∈ above, label.IsOpen) :
    tree.errors fileId =
      ((tree.occurrences above).filter (·.IsReported)).map (·.tree.label.fault fileId) := by
  induction tree using induction generalizing above with
  | node label children ih =>
    -- Below a node that is not open nothing is reported.
    have hclosed : ¬label.IsOpen →
        (children.flatMap (occurrences (label :: above))).filter (·.IsReported) = [] := by
      intro hc
      rw [List.filter_flatMap, List.flatMap_eq_nil_iff]
      exact fun child _ => filter_occurrences_of_not_isOpen List.mem_cons_self hc
    rw [errors_node, occurrences_node]
    split_ifs with hf he
    · have hr : Occurrence.IsReported ⟨above, node label children⟩ := ⟨hf, h⟩
      rw [List.filter_cons_of_pos (by simpa using hr), hclosed fun ho => ho.1 hf]
      rfl
    · have hr : ¬Occurrence.IsReported ⟨above, node label children⟩ := fun hr => hf hr.1
      rw [List.filter_cons_of_neg (by simpa using hr), List.filter_flatMap, List.map_flatMap]
      exact List.flatMap_congr fun child hc => ih child hc (List.forall_mem_cons.mpr ⟨⟨hf, he⟩, h⟩)
    · have hr : ¬Occurrence.IsReported ⟨above, node label children⟩ := fun hr => hf hr.1
      rw [List.filter_cons_of_neg (by simpa using hr), hclosed fun ho => he ho.2]
      rfl

/-! ## Flags that tell the truth -/

/-- Whether every node is said to hold an error exactly if it or a node below it is faulty. -/
def IsTruthful (tree : Tree) : Prop :=
  ∀ part ∈ tree.subtrees, part.label.hasError ↔ ∃ inner ∈ part.subtrees, inner.label.IsFaulty

instance : DecidablePred IsTruthful := fun tree =>
  inferInstanceAs (Decidable (∀ part ∈ tree.subtrees, _ ↔ _))

theorem isReported_iff_isOutermost {occurrence : Occurrence} (ht : tree.IsTruthful)
    (h : occurrence ∈ tree.occurrences []) :
    occurrence.IsReported ↔ occurrence.IsOutermost := by
  refine and_congr_right fun hf => forall₂_congr fun label hl => and_iff_left ?_
  rcases exists_subtree_of_mem_above h hl with hn | ⟨part, hp, rfl, hin⟩
  · cases hn
  · exact (ht part hp).mpr ⟨_, hin, hf⟩

theorem exists_isOutermost (ha : ∀ label ∈ above, ¬label.IsFaulty)
    (h : ∃ part ∈ tree.subtrees, part.label.IsFaulty) :
    ∃ occurrence ∈ tree.occurrences above, occurrence.IsOutermost := by
  induction tree using induction generalizing above with
  | node label children ih =>
    rw [occurrences_node]
    by_cases hf : label.IsFaulty
    · exact ⟨_, List.mem_cons_self, hf, ha⟩
    · obtain ⟨part, hp, hpart⟩ := h
      rw [subtrees_node] at hp
      rcases List.mem_cons.mp hp with rfl | hp
      · exact absurd hpart hf
      · obtain ⟨child, hc, hp⟩ := List.mem_flatMap.mp hp
        obtain ⟨occurrence, ho, hout⟩ := ih child hc (List.forall_mem_cons.mpr ⟨hf, ha⟩)
          ⟨part, hp, hpart⟩
        exact ⟨occurrence, List.mem_cons_of_mem _ (List.mem_flatMap.mpr ⟨child, hc, ho⟩), hout⟩

end Tree

namespace ParsedFile

/-- The errors of a module are those of its nodes, in pre-order, that are faulty and below open
nodes only. If the flags of the tree tell the truth they are those of the outermost faulty nodes,
and the module is in order exactly if no node at any depth is faulty. -/
theorem errors_of_ofModule (fileId : Int) (tree : Tree) :
    ((tree.occurrences []).map (·.tree.label) = tree.preorder.map (·.1)) ∧
      (ofModule fileId tree).errors =
        ((tree.occurrences []).filter (·.IsReported)).map (·.tree.label.fault fileId) ∧
      (tree.IsTruthful →
        (ofModule fileId tree).errors =
            ((tree.occurrences []).filter (·.IsOutermost)).map (·.tree.label.fault fileId) ∧
          ((ofModule fileId tree).isOk ↔ ∀ part ∈ tree.subtrees, ¬part.label.IsFaulty)) := by
  have herrors : (ofModule fileId tree).errors =
      ((tree.occurrences []).filter (·.IsReported)).map (·.tree.label.fault fileId) :=
    Tree.errors_eq (List.forall_mem_nil _)
  refine ⟨Tree.map_label_occurrences [] tree, herrors, fun ht => ?_⟩
  have houtermost : (ofModule fileId tree).errors =
      ((tree.occurrences []).filter (·.IsOutermost)).map (·.tree.label.fault fileId) := by
    rw [herrors]
    refine congrArg _ (List.filter_congr fun occurrence ho => ?_)
    exact decide_eq_decide.mpr (Tree.isReported_iff_isOutermost ht ho)
  refine ⟨houtermost, ?_⟩
  rw [isOk, houtermost, List.isEmpty_iff, List.map_eq_nil_iff, List.filter_eq_nil_iff]
  constructor
  · intro hnone part hp hf
    obtain ⟨occurrence, ho, hout⟩ := Tree.exists_isOutermost (List.forall_mem_nil _) ⟨part, hp, hf⟩
    exact hnone occurrence ho (decide_eq_true hout)
  · intro hsound occurrence ho hout
    exact hsound _ (Tree.tree_mem_subtrees ho) (of_decide_eq_true hout).1

def onLine (type : String) (start stop : Int) (isMissing hasError : Bool) (children : List Tree) :
    Tree :=
  .node ⟨type, ⟨start, stop, ⟨0, start⟩, ⟨0, stop⟩⟩, isMissing, hasError⟩ children

/-- An error in which a bracket is missing, beside a statement in which a sign is. -/
def brokenTree : Tree :=
  onLine "program" 0 9 false true [
    onLine "ERROR" 0 3 false true [onLine ")" 3 3 true true []],
    onLine "statement" 4 9 false true [
      onLine "name" 4 8 false false [], onLine ";" 9 9 true true []]]

theorem errors_of_brokenTree :
    brokenTree.IsTruthful ∧
      (ofModule 7 brokenTree).errors =
        [⟨7, "unexpected token", 0, 3⟩, ⟨7, "expected `;`", 9, 9⟩] ∧
      ¬(ofModule 7 brokenTree).isOk := by
  have ht : brokenTree.IsTruthful := by decide
  obtain ⟨-, -, htruthful⟩ := errors_of_ofModule 7 brokenTree
  obtain ⟨herrors, hok⟩ := htruthful ht
  refine ⟨ht, herrors.trans (by decide), fun h => ?_⟩
  exact absurd (hok.mp h) (by decide)

end ParsedFile

end SourceAtlas
