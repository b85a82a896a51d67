import Mathlib
import SourceAtlas.Proofs.PathOrder
import SourceAtlas.Proofs.Syntax.Faults
import SourceAtlas.SourceFile

/-! # Scripts and modules

A tree parsed as a script has the errors that it has as a module, and one more for each statement of
its root that only a module may have, all of them ordered by their bytes. If the bytes of its nodes
nest, the errors of the module are in that order already, since no faulty node that is reported lies
within another.
-/

namespace SourceAtlas

namespace ParseError

variable {a b : ParseError}

/-- Whether an error may come before another: it starts before it, or where it does and ends no
later. -/
def Precedes (a b : ParseError) : Prop :=
  a.startByte < b.startByte ∨ a.startByte = b.startByte ∧ a.endByte ≤ b.endByte

theorem le_iff : a.le b ↔ a.Precedes b := by
  simp [le, Precedes]

protected theorem le_trans (a b c : ParseError) (h : a.le b) (h' : b.le c) : a.le c := by
  rw [le_iff] at *
  unfold Precedes at *
  omega

protected theorem le_total (a b : ParseError) : a.le b || b.le a := by
  rw [Bool.or_eq_true, le_iff, le_iff]
  unfold Precedes
  omega

def IsMisplacement (error : ParseError) : Prop :=
  error.message = "`import` declarations are only allowed in modules" ∨
    error.message = "`export` declarations are only allowed in modules"

instance : DecidablePred IsMisplacement := fun _ => inferInstanceAs (Decidable (_ ∨ _))

end ParseError

namespace Label

variable {label : Label}

/-- Whether a node is a statement that only a module may have. -/
def IsModuleOnly (label : Label) : Prop :=
  label.type = "import_statement" ∨ label.type = "export_statement"

instance : DecidablePred IsModuleOnly := fun _ => inferInstanceAs (Decidable (_ ∨ _))

/-- What is reported of a statement that only a module may have. -/
def misplacement (fileId : Int) (label : Label) : ParseError where
  fileId := fileId
  message := "`" ++ (if label.type = "import_statement" then "import" else "export") ++
    "` declarations are only allowed in modules"
  startByte := label.extent.startByte
  endByte := label.extent.endByte

theorem moduleOnly?_map_error (fileId : Int) (label : Label) :
    (label.moduleOnly?.map fun complaint => complaint.error fileId label) =
      if label.IsModuleOnly then some (label.misplacement fileId) else none := by
  by_cases hi : label.type = "import_statement"
  · have hm : label.IsModuleOnly := Or.inl hi
    rw [if_pos hm, moduleOnly?, if_pos hi, misplacement, if_pos hi]
    rfl
  · by_cases he : label.type = "export_statement"
    · have hm : label.IsModuleOnly := Or.inr he
      rw [if_pos hm, moduleOnly?, if_neg hi, if_pos he, misplacement, if_neg hi]
      rfl
    · have hm : ¬label.IsModuleOnly := not_or.mpr ⟨hi, he⟩
      rw [if_neg hm, moduleOnly?, if_neg hi, if_neg he]
      rfl

theorem isMisplacement_misplacement (fileId : Int) (label : Label) :
    (label.misplacement fileId).IsMisplacement := by
  by_cases hi : label.type = "import_statement"
  · exact Or.inl (by rw [misplacement, if_pos hi]; rfl)
  · exact Or.inr (by rw [misplacement, if_neg hi]; rfl)

/-- The messages about faulty nodes begin with a letter. -/
theorem not_isMisplacement_fault (fileId : Int) (label : Label) :
    ¬(label.fault fileId).IsMisplacement := by
  intro h
  have hhead : (label.fault fileId).message.toList.head? = some '`' := by
    rcases h with h | h <;> rw [h] <;> rfl
  have hmessage : (label.fault fileId).message =
      if label.isMissing then "expected `" ++ label.type ++ "`" else "unexpected token" := rfl
  rw [hmessage] at hhead
  split_ifs at hhead
  · rw [String.toList_append, String.toList_append] at hhead
    cases hhead
  · cases hhead

end Label

namespace Tree

variable {fileId : Int} {tree : Tree} {error : ParseError}

theorem moduleOnlyErrors_eq (fileId : Int) (tree : Tree) :
    tree.moduleOnlyErrors fileId =
      (tree.children.filter (·.label.IsModuleOnly)).map (·.label.misplacement fileId) := by
  rw [moduleOnlyErrors]
  induction tree.children with
  | nil => rfl
  | cons first rest ih =>
    rw [List.filterMap_cons, Label.moduleOnly?_map_error]
    by_cases hm : first.label.IsModuleOnly
    · rw [if_pos hm, List.filter_cons_of_pos (by simpa using hm), List.map_cons, ih]
    · rw [if_neg hm, List.filter_cons_of_neg (by simpa using hm), ih]

/-! ## Bytes that nest -/

structure IsSpanned (tree : Tree) : Prop where
  ascending : tree.label.extent.startByte ≤ tree.label.extent.endByte
  inside : ∀ child ∈ tree.children,
    tree.label.extent.startByte ≤ child.label.extent.startByte ∧
      child.label.extent.endByte ≤ tree.label.extent.endByte
  apart : tree.children.IsChain fun a b => a.label.extent.endByte ≤ b.label.extent.startByte

instance : DecidablePred IsSpanned := fun _ =>
  decidable_of_iff (_ ∧ _ ∧ _)
    ⟨fun ⟨ha, hi, hc⟩ => ⟨ha, hi, hc⟩, fun ⟨ha, hi, hc⟩ => ⟨ha, hi, hc⟩⟩

def IsNested (tree : Tree) : Prop :=
  ∀ part ∈ tree.subtrees, part.IsSpanned

instance : DecidablePred IsNested := fun tree =>
  inferInstanceAs (Decidable (∀ part ∈ tree.subtrees, part.IsSpanned))

theorem IsNested.of_mem_children {child : Tree} (h : tree.IsNested) (hc : child ∈ tree.children) :
    child.IsNested := by
  cases tree with
  | node label children =>
    intro part hp
    refine h part ?_
    rw [subtrees_node]
    exact List.mem_cons_of_mem _ (List.mem_flatMap.mpr ⟨child, hc, hp⟩)

theorem IsNested.spanned (h : tree.IsNested) : tree.IsSpanned :=
  h tree (self_mem_subtrees tree)

/-- As each child ends no later than the next one starts, it ends no later than any later one
starts. -/
theorem pairwise_of_isChain {trees : List Tree}
    (ha : ∀ tree ∈ trees, tree.label.extent.startByte ≤ tree.label.extent.endByte)
    (h : trees.IsChain fun a b => a.label.extent.endByte ≤ b.label.extent.startByte) :
    trees.Pairwise fun a b => a.label.extent.endByte ≤ b.label.extent.startByte := by
  induction h with
  | nil => exact .nil
  | singleton => exact List.pairwise_singleton _ _
  | @cons_cons first second rest hle _ ih =>
    obtain ⟨-, hrest⟩ := List.forall_mem_cons.mp ha
    have hsecond := (List.forall_mem_cons.mp hrest).1
    have hp := ih hrest
    refine List.pairwise_cons.mpr ⟨List.forall_mem_cons.mpr ⟨hle, fun third ht => ?_⟩, hp⟩
    exact (hle.trans hsecond).trans ((List.pairwise_cons.mp hp).1 third ht)

/-- The errors of a tree lie within it, and each ends no later than the next ones start. -/
theorem IsNested.errors (h : tree.IsNested) (fileId : Int) :
    (∀ error ∈ tree.errors fileId, tree.label.extent.startByte ≤ error.startByte ∧
        error.startByte ≤ error.endByte ∧ error.endByte ≤ tree.label.extent.endByte) ∧
      (tree.errors fileId).Pairwise fun a b => a.endByte ≤ b.startByte := by
  induction tree using induction with
  | node label children ih =>
    obtain ⟨hascending, hinside, hapart⟩ := h.spanned
    rw [errors_node]
    split_ifs
    · exact ⟨List.forall_mem_singleton.mpr ⟨le_rfl, hascending, le_rfl⟩,
        List.pairwise_singleton _ _⟩
    · have hchild : ∀ child ∈ children, _ ∧ _ := fun child hc => ih child hc (h.of_mem_children hc)
      constructor
      · intro error he
        obtain ⟨child, hc, he⟩ := List.mem_flatMap.mp he
        obtain ⟨hstart, hle, hend⟩ := (hchild child hc).1 error he
        obtain ⟨hs, ht⟩ := hinside child hc
        exact ⟨hs.trans hstart, hle, hend.trans ht⟩
      · have hpairwise := pairwise_of_isChain
          (fun child hc => (h.of_mem_children hc).spanned.ascending) hapart
        refine List.pairwise_flatMap.mpr ⟨fun child hc => (hchild child hc).2,
          hpairwise.imp_of_mem fun ha hb hle error he other ho => ?_⟩
        exact ((hchild _ ha).1 error he).2.2.trans (hle.trans ((hchild _ hb).1 other ho).1)
    · exact ⟨nofun, .nil⟩

theorem IsNested.pairwise_precedes (h : tree.IsNested) (fileId : Int) :
    (tree.errors fileId).Pairwise ParseError.Precedes := by
  obtain ⟨hbounds, hpairwise⟩ := h.errors fileId
  refine hpairwise.imp_of_mem fun {a b} ha hb hle => ?_
  have hlea := (hbounds a ha).2.1
  have hleb := (hbounds b hb).2.1
  -- Errors that start together are of no width but for the last of them.
  rcases lt_or_ge a.startByte b.startByte with hlt | hge
  · exact Or.inl hlt
  · exact Or.inr ⟨by omega, by omega⟩

theorem mem_errors (h : error ∈ tree.errors fileId) :
    ∃ label : Label, error = label.fault fileId := by
  rw [errors_eq (List.forall_mem_nil _)] at h
  obtain ⟨occurrence, -, rfl⟩ := List.mem_map.mp h
  exact ⟨occurrence.tree.label, rfl⟩

theorem filter_errors_not_isMisplacement (fileId : Int) (tree : Tree) :
    (tree.errors fileId ++ tree.moduleOnlyErrors fileId).filter (¬·.IsMisplacement) =
      tree.errors fileId := by
  have herrors : (tree.errors fileId).filter (¬·.IsMisplacement) = tree.errors fileId := by
    refine List.filter_eq_self.mpr fun error he => ?_
    obtain ⟨label, rfl⟩ := mem_errors he
    exact decide_eq_true (label.not_isMisplacement_fault fileId)
  have hothers : (tree.moduleOnlyErrors fileId).filter (¬·.IsMisplacement) = [] := by
    refine List.filter_eq_nil_iff.mpr fun error he => ?_
    rw [moduleOnlyErrors_eq] at he
    obtain ⟨child, -, rfl⟩ := List.mem_map.mp he
    simpa using child.label.isMisplacement_misplacement fileId
  rw [List.filter_append, herrors, hothers, List.append_nil]

end Tree

namespace ParsedFile

theorem errors_ofScript (fileId : Int) (tree : Tree) :
    (ofScript fileId tree).errors =
      (tree.errors fileId ++ tree.moduleOnlyErrors fileId).mergeSort ParseError.le := rfl

theorem ofScript_ne_ofModule (fileId : Int) (tree : Tree) :
    ofScript fileId tree ≠ ofModule fileId tree := fun h => nomatch congrArg kind h

/-- An error begins where a node does. -/
theorem exists_part_of_mem_errors {kind : FileKind} {fileId : Int} {tree : Tree}
    {error : ParseError} (h : error ∈ (ofTree kind fileId tree).errors) :
    ∃ part ∈ tree.subtrees, error.startByte = part.label.extent.startByte := by
  have hnodes : ∀ error ∈ tree.errors fileId,
      ∃ part ∈ tree.subtrees, error.startByte = part.label.extent.startByte := by
    intro error he
    rw [Tree.errors_eq (List.forall_mem_nil _)] at he
    obtain ⟨occurrence, ho, rfl⟩ := List.mem_map.mp he
    exact ⟨_, Tree.tree_mem_subtrees (List.mem_filter.mp ho).1, rfl⟩
  cases kind with
  | module => exact hnodes error h
  | script =>
    rcases List.mem_append.mp ((List.mergeSort_perm _ _).mem_iff.mp h) with he | he
    · exact hnodes error he
    · rw [Tree.moduleOnlyErrors_eq] at he
      obtain ⟨child, hc, rfl⟩ := List.mem_map.mp he
      obtain ⟨label, children⟩ := tree
      refine ⟨child, ?_, rfl⟩
      rw [Tree.subtrees_node]
      exact List.mem_cons_of_mem _ (List.mem_flatMap.mpr
        ⟨child, (List.mem_filter.mp hc).1, Tree.self_mem_subtrees child⟩)

/-- Errors that cover the same bytes keep their order when they are sorted. -/
theorem filter_mergeSort_of_same (errors : List ParseError) (start stop : Int) :
    (errors.mergeSort ParseError.le).filter (fun e => e.startByte = start ∧ e.endByte = stop) =
      errors.filter (fun e => e.startByte = start ∧ e.endByte = stop) := by
  rw [filter_mergeSort ParseError.le_trans ParseError.le_total]
  refine List.mergeSort_of_pairwise (List.pairwise_of_forall_mem_list fun a ha b hb => ?_)
  obtain ⟨-, ha⟩ := List.mem_filter.mp ha
  obtain ⟨-, hb⟩ := List.mem_filter.mp hb
  obtain ⟨has, hat⟩ := of_decide_eq_true ha
  obtain ⟨hbs, hbt⟩ := of_decide_eq_true hb
  exact ParseError.le_iff.mpr (Or.inr ⟨has.trans hbs.symm, (hat.trans hbt.symm).le⟩)

/-- A script and a module of one tree have the same root. The errors of the script are those of the
module and one for each child of the root that only a module may have, in ascending order; those
that cover the same bytes stand as they do one after the other, the errors of the module first. If
the bytes of the nodes nest, the errors of the module are ascending themselves, and are what the
script has but for those about statements. A file is parsed as a module exactly if that is its
kind. -/
theorem errors_of_ofScript (fileId : Int) (tree : Tree) :
    let asScript := ofScript fileId tree
    let asModule := ofModule fileId tree
    let statements :=
      (tree.children.filter (·.label.IsModuleOnly)).map (·.label.misplacement fileId)
    asScript.root = asModule.root ∧
      asScript.errors.Perm (asModule.errors ++ statements) ∧
      asScript.errors.Pairwise ParseError.Precedes ∧
      (∀ start stop,
        asScript.errors.filter (fun e => e.startByte = start ∧ e.endByte = stop) =
          (asModule.errors ++ statements).filter
            (fun e => e.startByte = start ∧ e.endByte = stop)) ∧
      (tree.IsNested →
        asModule.errors.Pairwise ParseError.Precedes ∧
          asScript.errors.filter (¬·.IsMisplacement) = asModule.errors) ∧
      ∀ (file : SourceFile) (grammar : Grammar), grammar file.source = some tree →
        (file.parse grammar = some (ofModule file.id tree) ↔ file.kind = .module) ∧
          (file.parse grammar = some (ofScript file.id tree) ↔ file.kind ≠ .module) := by
  intro asScript asModule statements
  have hscript : asScript.errors = (asModule.errors ++ statements).mergeSort ParseError.le :=
    (errors_ofScript fileId tree).trans (by rw [Tree.moduleOnlyErrors_eq]; rfl)
  refine ⟨rfl, hscript ▸ List.mergeSort_perm _ _, ?_, fun start stop => ?_, fun hn => ?_,
    fun file grammar hg => ?_⟩
  · rw [hscript]
    exact (List.pairwise_mergeSort ParseError.le_trans ParseError.le_total _).imp
      ParseError.le_iff.mp
  · rw [hscript, filter_mergeSort_of_same]
  · have hsorted := hn.pairwise_precedes fileId
    refine ⟨hsorted, ?_⟩
    rw [errors_ofScript, filter_mergeSort ParseError.le_trans ParseError.le_total,
      Tree.filter_errors_not_isMisplacement]
    exact List.mergeSort_of_pairwise (hsorted.imp ParseError.le_iff.mpr)
  · have hparse : file.parse grammar = some (ofTree file.kind file.id tree) := by
      rw [SourceFile.parse, hg, Option.map_some]
    rw [hparse, Option.some_inj, Option.some_inj]
    have hne := ofScript_ne_ofModule file.id tree
    cases file.kind with
    | module => exact ⟨iff_of_true rfl rfl, iff_of_false hne.symm (not_not.mpr rfl)⟩
    | script => exact ⟨iff_of_false hne nofun, iff_of_true rfl nofun⟩

/-- An import in which a sign is missing, an error that starts where the sign should, and an
export. -/
def importingTree : Tree :=
  onLine "program" 0 9 false true [
    onLine "import_statement" 0 4 false true [onLine ";" 4 4 true true []],
    onLine "ERROR" 4 6 false true [],
    onLine "export_statement" 6 9 false false []]

theorem errors_of_importingTree :
    importingTree.IsNested ∧
      (ofScript 7 importingTree).errors =
        [⟨7, "`import` declarations are only allowed in modules", 0, 4⟩,
          ⟨7, "expected `;`", 4, 4⟩, ⟨7, "unexpected token", 4, 6⟩,
          ⟨7, "`export` declarations are only allowed in modules", 6, 9⟩] ∧
      (ofModule 7 importingTree).errors =
        [⟨7, "expected `;`", 4, 4⟩, ⟨7, "unexpected token", 4, 6⟩] ∧
      (SourceFile.ofText "" "n" .module).parse (fun _ => some importingTree) =
        some (ofModule virtualId importingTree) := by
  have hn : importingTree.IsNested := by decide
  have hscript : (ofScript 7 importingTree).errors =
      [⟨7, "`import` declarations are only allowed in modules", 0, 4⟩,
        ⟨7, "expected `;`", 4, 4⟩, ⟨7, "unexpected token", 4, 6⟩,
        ⟨7, "`export` declarations are only allowed in modules", 6, 9⟩] := by cbv
  obtain ⟨-, -, -, -, hnested, hparse⟩ := errors_of_ofScript 7 importingTree
  have hmodule := (hnested hn).2
  rw [hscript] at hmodule
  refine ⟨hn, hscript, hmodule.symm.trans (by decide), ?_⟩
  exact (hparse (SourceFile.ofText "" "n" .module) (fun _ => some importingTree) rfl).1.mpr rfl

end ParsedFile

end SourceAtlas
