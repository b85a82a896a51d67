import Mathlib.Tactic
import SourceAtlas.Proofs.Syntax.Conversion
import SourceAtlas.Proofs.Value.Reading
import SourceAtlas.Syntax.Model

/-! # Models that are written and read again

A node that is read within some levels is lower than their number, and every node that low is read
back from the value it is written as. So reading and writing again changes nothing: what is read of
a value is kept, and of its fields those of the model are left.
-/

namespace SourceAtlas

/-! ## Heights -/

namespace SyntaxNode

mutual

def height : SyntaxNode → ℕ
  | node _ _ _ none => 1
  | node _ _ _ (some children) => heights children + 1
termination_by structural n => n

def heights : List SyntaxNode → ℕ
  | [] => 0
  | n :: rest => max n.height (heights rest)
termination_by structural ns => ns

end

theorem heights_lt_iff {nodes : List SyntaxNode} {levels : ℕ} :
    heights nodes < levels ↔ 0 < levels ∧ ∀ node ∈ nodes, node.height < levels := by
  induction nodes with
  | nil => simp [heights]
  | cons node rest ih =>
    rw [heights, max_lt_iff, ih, List.forall_mem_cons]
    tauto

/-- Below a node there has to be a level for its positions, be it without children. -/
theorem height_lt_succ_iff {fileId : Int} {type : String} {extent : Extent}
    {children : Option (List SyntaxNode)} {levels : ℕ} :
    (node fileId type extent children).height < levels + 1 ↔
      0 < levels ∧ ∀ nodes, children = some nodes → ∀ child ∈ nodes, child.height < levels := by
  cases children with
  | none => simp [height]
  | some nodes => simp [height, heights_lt_iff]

end SyntaxNode

namespace Tree

mutual

def height : Tree → ℕ
  | node _ children => heights children + 1
termination_by structural tree => tree

def heights : List Tree → ℕ
  | [] => 0
  | tree :: rest => max tree.height (heights rest)
termination_by structural trees => trees

end

theorem heights_map_tagged (fileId : Int) {trees : List Tree}
    (h : ∀ tree ∈ trees, (tree.tagged fileId).height = tree.height) :
    SyntaxNode.heights (trees.map (tagged fileId)) = heights trees := by
  induction trees with
  | nil => rfl
  | cons tree rest ih =>
    obtain ⟨htree, hrest⟩ := List.forall_mem_cons.mp h
    rw [List.map_cons, SyntaxNode.heights, htree, ih hrest, heights]

theorem height_tagged (fileId : Int) (tree : Tree) :
    (tree.tagged fileId).height = tree.height := by
  induction tree using induction with
  | node label children ih =>
    rw [tagged_node, height, ← heights_map_tagged fileId ih]
    cases children <;> rfl

end Tree

/-! ## Reading -/

namespace Value

variable {α : Type} {model : String} {value : Value} {a : α}

theorem readObject_eq_ok_iff {read : List (String × Value) → Checked α} :
    value.readObject model read = .ok a ↔
      ∃ fields, value = .object fields ∧ read fields = .ok a := by
  cases value <;> simp [readObject, Checked.fail]

theorem readList_eq_ok_iff {read : Value → Checked α} {found : List α} :
    value.readList read = .ok found ↔ ∃ items, value = .list items ∧
      List.Forall₂ (fun item a => read item = .ok a) items found := by
  cases value <;> simp [readList, Checked.fail, Checked.all_eq_ok_iff]

end Value

namespace Position

theorem read_toValue (position : Position) : read position.toValue = .ok position := rfl

theorem readWithin_toValue {levels : ℕ} (h : 0 < levels) (position : Position) :
    readWithin levels position.toValue = .ok position := by
  cases levels with
  | zero => cases h
  | succ levels => exact read_toValue position

theorem pos_of_readWithin {levels : ℕ} {value : Value} {position : Position}
    (h : readWithin levels value = .ok position) : 0 < levels := by
  cases levels with
  | zero => cases h
  | succ levels => exact levels.succ_pos

end Position

namespace ParseError

theorem read_toValue (error : ParseError) : read error.toValue = .ok error := rfl

end ParseError

namespace FileKind

theorem read_text (kind : FileKind) : read (.text kind.text) = .ok kind := by
  cases kind <;> rfl

end FileKind

namespace SyntaxNode

variable {fileId : Int} {type : String} {extent : Extent} {children : Option (List SyntaxNode)}
  {nodes : List SyntaxNode} {node : SyntaxNode} {value : Value} {levels : ℕ}

theorem readWithin_eq_ok_iff : readWithin (levels + 1) value =
    .ok (.node fileId type extent children) ↔ ∃ fields, value = .object fields ∧
      Value.required "file_id" Value.readInt fields = .ok fileId ∧
      Value.required "type" Value.readText fields = .ok type ∧
      Value.required "start_byte" Value.readInt fields = .ok extent.startByte ∧
      Value.required "end_byte" Value.readInt fields = .ok extent.endByte ∧
      Value.required "start_point" (Position.readWithin levels) fields = .ok extent.startPoint ∧
      Value.required "end_point" (Position.readWithin levels) fields = .ok extent.endPoint ∧
      Value.optional "children" none (readChildren (readWithin levels)) fields = .ok children := by
  rw [readWithin, Value.readObject_eq_ok_iff]
  refine exists_congr fun fields => and_congr_right fun _ => ?_
  rw [Checked.map_eq_ok_iff]
  constructor
  · rintro ⟨⟨⟨⟨_, _⟩, _, _⟩, ⟨_, _⟩, _⟩, hread, hnode⟩
    cases hnode
    simpa [and_assoc] using hread
  · rintro ⟨hid, htype, hstart, hend, hfirst, hlast, hchildren⟩
    exact ⟨(((fileId, type), extent.startByte, extent.endByte),
      (extent.startPoint, extent.endPoint), children), by simp [*], rfl⟩

theorem toValues_eq_map (nodes : List SyntaxNode) : toValues nodes = nodes.map toValue := by
  induction nodes with
  | nil => rfl
  | cons node rest ih => rw [toValues, ih, List.map_cons]

def childrenValue : Option (List SyntaxNode) → Value
  | none => .null
  | some nodes => .list (nodes.map toValue)

theorem toValue_node (fileId : Int) (type : String) (extent : Extent)
    (children : Option (List SyntaxNode)) :
    (SyntaxNode.node fileId type extent children).toValue =
      .object (fieldsOf fileId type extent (childrenValue children)) := by
  cases children with
  | none => rfl
  | some nodes => rw [toValue, toValues_eq_map, childrenValue]

theorem readChildren_eq_some_iff {read : Value → Checked SyntaxNode} :
    readChildren read value = .ok (some nodes) ↔ ∃ items, value = .list items ∧
      List.Forall₂ (fun item node => read item = .ok node) items nodes := by
  cases value with
  | null => simp [readChildren]
  | _ => simp [readChildren, Checked.map_eq_ok_iff, Value.readList_eq_ok_iff]

/-- Absent children are read as absent, and none as none. -/
theorem readChildren_childrenValue {read : Value → Checked SyntaxNode}
    (h : ∀ nodes, children = some nodes → ∀ node ∈ nodes, read node.toValue = .ok node) :
    readChildren read (childrenValue children) = .ok children := by
  cases children with
  | none => rfl
  | some nodes =>
    rw [readChildren_eq_some_iff]
    refine ⟨_, rfl, ?_⟩
    rw [List.forall₂_map_left_iff]
    exact List.forall₂_same.mpr (h nodes rfl)

/-- A node that is low enough is read back. -/
theorem readWithin_toValue (h : node.height < levels) :
    readWithin levels node.toValue = .ok node := by
  induction levels generalizing node with
  | zero => cases h
  | succ levels ih =>
    obtain ⟨fileId, type, extent, children⟩ := node
    obtain ⟨hpos, hchildren⟩ := height_lt_succ_iff.mp h
    have hread := readChildren_childrenValue fun nodes hnodes child hchild =>
      ih (hchildren nodes hnodes child hchild)
    rw [readWithin_eq_ok_iff]
    refine ⟨_, toValue_node fileId type extent children, rfl, rfl, rfl, rfl, ?_, ?_, ?_⟩
    · exact Value.required_eq_ok_iff.mpr ⟨_, rfl, Position.readWithin_toValue hpos _⟩
    · exact Value.required_eq_ok_iff.mpr ⟨_, rfl, Position.readWithin_toValue hpos _⟩
    · exact Value.optional_eq_ok_iff.mpr (.inr ⟨_, rfl, hread⟩)

/-- A node that is read is low enough. -/
theorem height_lt_of_readWithin (h : readWithin levels value = .ok node) :
    node.height < levels := by
  induction levels generalizing value node with
  | zero => cases h
  | succ levels ih =>
    obtain ⟨fileId, type, extent, children⟩ := node
    obtain ⟨fields, -, -, -, -, -, hstart, -, hchildren⟩ := readWithin_eq_ok_iff.mp h
    obtain ⟨_, -, hposition⟩ := Value.required_eq_ok_iff.mp hstart
    refine height_lt_succ_iff.mpr ⟨Position.pos_of_readWithin hposition, ?_⟩
    rintro nodes rfl
    rcases Value.optional_eq_ok_iff.mp hchildren with ⟨-, hnone⟩ | ⟨_, -, hread⟩
    · cases hnone
    · obtain ⟨items, -, hall⟩ := readChildren_eq_some_iff.mp hread
      have hlow : List.Forall₂ (fun child item =>
          child.height < levels ∧ readWithin levels item = .ok child) nodes items :=
        hall.flip.imp fun child item hitem => ⟨ih hitem, hitem⟩
      exact ((List.forall₂_and_left _ _).mp hlow).1

end SyntaxNode

namespace ParsedFile

variable {file : ParsedFile} {value : Value}

theorem read_eq_ok_iff : read value = .ok file ↔ ∃ fields, value = .object fields ∧
    Value.required "file_id" Value.readInt fields = .ok file.fileId ∧
    Value.required "kind" FileKind.read fields = .ok file.kind ∧
    Value.required "root" (SyntaxNode.readWithin (SyntaxNode.maxLevels - 1)) fields =
      .ok file.root ∧
    Value.optional "errors" [] (Value.readList ParseError.read) fields = .ok file.errors := by
  rw [read, Value.readObject_eq_ok_iff]
  refine exists_congr fun fields => and_congr_right fun _ => ?_
  rw [Checked.map_eq_ok_iff]
  constructor
  · rintro ⟨⟨⟨_, _⟩, _, _⟩, hread, rfl⟩
    simpa [and_assoc] using hread
  · rintro ⟨hid, hkind, hroot, herrors⟩
    exact ⟨((file.fileId, file.kind), file.root, file.errors), by simp [*], rfl⟩

theorem height_root_of_read (h : read value = .ok file) :
    file.root.height < SyntaxNode.maxLevels - 1 := by
  obtain ⟨_, -, -, -, hroot, -⟩ := read_eq_ok_iff.mp h
  obtain ⟨_, -, hread⟩ := Value.required_eq_ok_iff.mp hroot
  exact SyntaxNode.height_lt_of_readWithin hread

theorem read_toValue_iff :
    read file.toValue = .ok file ↔ file.root.height < SyntaxNode.maxLevels - 1 := by
  refine ⟨height_root_of_read, fun h => read_eq_ok_iff.mpr ⟨_, rfl, rfl, ?_, ?_, ?_⟩⟩
  · exact Value.required_eq_ok_iff.mpr ⟨_, rfl, file.kind.read_text⟩
  · exact Value.required_eq_ok_iff.mpr ⟨_, rfl, SyntaxNode.readWithin_toValue h⟩
  · refine Value.optional_eq_ok_iff.mpr (.inr ⟨_, rfl, ?_⟩)
    exact Checked.all_map_eq_ok fun error _ => error.read_toValue

end ParsedFile

/-! ## Names of fields -/

namespace Value

mutual

/-- The names of the fields of every object in a value, each object before those inside it. -/
def objectNames : Value → List (List String)
  | .list items => objectNamesOfItems items
  | .object fields => fields.map (·.1) :: objectNamesOfFields fields
  | _ => []
termination_by structural v => v

def objectNamesOfItems : List Value → List (List String)
  | [] => []
  | item :: rest => item.objectNames ++ objectNamesOfItems rest
termination_by structural items => items

def objectNamesOfFields : List (String × Value) → List (List String)
  | [] => []
  | (_, value) :: rest => value.objectNames ++ objectNamesOfFields rest
termination_by structural fields => fields

end

theorem objectNamesOfItems_eq_flatMap (items : List Value) :
    objectNamesOfItems items = items.flatMap objectNames := by
  induction items with
  | nil => rfl
  | cons item rest ih => rw [objectNamesOfItems, ih, List.flatMap_cons]

end Value

def Position.fieldNames : List String := ["row", "column"]

def SyntaxNode.fieldNames : List String :=
  ["file_id", "type", "start_byte", "end_byte", "start_point", "end_point", "children"]

def ParseError.fieldNames : List String := ["file_id", "message", "start_byte", "end_byte"]

def ParsedFile.fieldNames : List String := ["file_id", "kind", "root", "errors"]

namespace SyntaxNode

/-- Every node is written as an object for itself and one for each of its positions. -/
def writtenNames (nodes : List SyntaxNode) : List (List String) :=
  nodes.flatMap fun _ => [fieldNames, Position.fieldNames, Position.fieldNames]

mutual

theorem objectNames_toValue (n : SyntaxNode) :
    n.toValue.objectNames = writtenNames n.preorder := by
  cases n with
  | node fileId type extent children =>
    cases children with
    | none => rfl
    | some children =>
      rw [preorder, writtenNames, List.flatMap_cons, ← writtenNames,
        ← objectNames_toValues children]
      exact (congrArg (_ :: _ :: _ :: ·) (List.append_nil _))
termination_by structural n

theorem objectNames_toValues (nodes : List SyntaxNode) :
    Value.objectNamesOfItems (toValues nodes) = writtenNames (preorders nodes) := by
  cases nodes with
  | nil => rfl
  | cons first rest =>
    rw [toValues, Value.objectNamesOfItems, objectNames_toValue first, objectNames_toValues rest,
      preorders, writtenNames, writtenNames, writtenNames, List.flatMap_append]
termination_by structural nodes

end

end SyntaxNode

namespace ParsedFile

theorem objectNamesOfItems_errors (errors : List ParseError) :
    Value.objectNamesOfItems (errors.map ParseError.toValue) =
      errors.map fun _ => ParseError.fieldNames := by
  rw [Value.objectNamesOfItems_eq_flatMap, List.flatMap_map]
  exact List.map_eq_flatMap.symm

theorem objectNames_toValue (file : ParsedFile) : file.toValue.objectNames =
    fieldNames :: (SyntaxNode.writtenNames file.root.preorder ++
      file.errors.map fun _ => ParseError.fieldNames) := by
  rw [← SyntaxNode.objectNames_toValue, ← objectNamesOfItems_errors]
  exact congrArg (fieldNames :: file.root.toValue.objectNames ++ ·) (List.append_nil _)

theorem read_toValue_ofTree (kind : FileKind) (fileId : Int) (tree : Tree) :
    read (ofTree kind fileId tree).toValue = .ok (ofTree kind fileId tree) ↔
      tree.height + 1 < SyntaxNode.maxLevels := by
  have hroot : (ofTree kind fileId tree).root = tree.tagged fileId := by
    cases kind <;> exact tree.toNode_eq_tagged fileId
  rw [read_toValue_iff, hroot, Tree.height_tagged, Nat.lt_sub_iff_add_lt]

end ParsedFile

namespace Value

/-- What is read of a value, be it a position, an error, a node or a file, is what is read of the
value it is written as, so that value is the same again, and so is whether the file is in order: the
integers have been read by then, children that are absent are not an empty list of them, and there
are no names in the written value but those of the fields of the models. A file made of a tree is
read back just if it lies within the levels. -/
theorem models_of_dumps (value : Value) :
    (∀ position, Position.read value = .ok position →
      Position.read position.toValue = .ok position ∧
        position.toValue.objectNames = [Position.fieldNames]) ∧
    (∀ error, ParseError.read value = .ok error →
      ParseError.read error.toValue = .ok error ∧
        error.toValue.objectNames = [ParseError.fieldNames]) ∧
    (∀ node, SyntaxNode.read value = .ok node →
      SyntaxNode.read node.toValue = .ok node ∧
        node.toValue.objectNames = SyntaxNode.writtenNames node.preorder) ∧
    (∀ file, ParsedFile.read value = .ok file →
      ParsedFile.read file.toValue = .ok file ∧
        file.toValue.objectNames =
          ParsedFile.fieldNames :: (SyntaxNode.writtenNames file.root.preorder ++
            file.errors.map fun _ => ParseError.fieldNames)) ∧
    ∀ kind fileId tree, let file := ParsedFile.ofTree kind fileId tree
      ParsedFile.read file.toValue = .ok file ↔ tree.height + 1 < SyntaxNode.maxLevels := by
  refine ⟨?_, ?_, ?_, ?_, ParsedFile.read_toValue_ofTree⟩
  · intro position _
    exact ⟨position.read_toValue, rfl⟩
  · intro error _
    exact ⟨error.read_toValue, rfl⟩
  · intro node hread
    have hlow : node.height < SyntaxNode.maxLevels := SyntaxNode.height_lt_of_readWithin hread
    exact ⟨SyntaxNode.readWithin_toValue hlow, node.objectNames_toValue⟩
  · intro file hread
    have hlow := ParsedFile.height_root_of_read hread
    exact ⟨ParsedFile.read_toValue_iff.mpr hlow, file.objectNames_toValue⟩

/-- A position with integers that are not given as such, and with a field that no position has. -/
def lenientPoint : Value :=
  .object [("row", .text " 1_0 "), ("column", .bool true), ("depth", .null)]

def lenientError : Value :=
  .object [("end_byte", .double (.finite false 3 1)), ("start_byte", .text "+6.0"),
    ("message", .text "unexpected token"), ("line", .int 2), ("file_id", .text "7")]

/-- A node with an unknown field, and children if there are any among the other fields. -/
def lenientNode (rest : List (String × Value)) : Value :=
  .object ([("file_id", .text "7"), ("type", .text "call"), ("start_byte", .bool false),
    ("end_byte", .int 6), ("start_point", lenientPoint), ("end_point", lenientPoint),
    ("parent", .list [.null])] ++ rest)

/-- Of the two nodes below the root one has no children, and one has an empty list of them. -/
def lenientRoot : Value :=
  lenientNode [("children", .list [lenientNode [], lenientNode [("children", .list [])]])]

def lenientFile : Value :=
  .object [("kind", .text "module"), ("ok", .bool true), ("errors", .list [lenientError]),
    ("file_id", .text "007"), ("root", lenientRoot)]

theorem models_of_lenientDumps :
    let point : Position := ⟨10, 1⟩
    let error : ParseError := ⟨7, "unexpected token", 6, 6⟩
    let node := SyntaxNode.node 7 "call" ⟨0, 6, point, point⟩
    let root := node (some [node none, node (some [])])
    let file : ParsedFile := ⟨7, .module, root, [error]⟩
    (Position.read lenientPoint = .ok point ∧ Position.read point.toValue = .ok point) ∧
    (ParseError.read lenientError = .ok error ∧ ParseError.read error.toValue = .ok error) ∧
    (SyntaxNode.read lenientRoot = .ok root ∧ SyntaxNode.read root.toValue = .ok root) ∧
    ParsedFile.read lenientFile = .ok file ∧ ParsedFile.read file.toValue = .ok file := by
  intro point error node root file
  have hpoint : Position.read lenientPoint = .ok point := rfl
  have herror : ParseError.read lenientError = .ok error := rfl
  have hroot : SyntaxNode.read lenientRoot = .ok root := rfl
  have hfile : ParsedFile.read lenientFile = .ok file := rfl
  exact ⟨⟨hpoint, ((models_of_dumps lenientPoint).1 point hpoint).1⟩,
    ⟨herror, ((models_of_dumps lenientError).2.1 error herror).1⟩,
    ⟨hroot, ((models_of_dumps lenientRoot).2.2.1 root hroot).1⟩,
    hfile, ((models_of_dumps lenientFile).2.2.2.1 file hfile).1⟩

end Value

end SourceAtlas
