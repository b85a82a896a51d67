import SourceAtlas.Syntax.Parsed
import SourceAtlas.Value.Reading

/-! # Stored models

Positions, nodes, errors and parsed files as structured values. Reading is lenient about integers
and passes over unknown fields; writing gives every field.
-/

namespace SourceAtlas

def Value.readObject {α : Type} (model : String)
    (read : List (String × Value) → Checked α) : Value → Checked α
  | .object fields => read fields
  | _ => .fail (.notObject model)

def Value.readList {α : Type} (read : Value → Checked α) : Value → Checked (List α)
  | .list items => Checked.all read 0 items
  | _ => .fail .notList

namespace Position

def read : Value → Checked Position :=
  Value.readObject "Position" fun fields =>
    let row := Value.required "row" Value.readInt fields
    let column := Value.required "column" Value.readInt fields
    (row.both column).map fun (row, column) => ⟨row, column⟩

/-- Reads a position with a number of levels left for it. -/
def readWithin : (levels : Nat) → Value → Checked Position
  | 0 => fun _ => .fail .nestedTooDeep
  | _ + 1 => read

def toValue (position : Position) : Value :=
  .object [("row", .int position.row), ("column", .int position.column)]

end Position

namespace SyntaxNode

/-- The number of levels of a value that is read: nodes lie inside each other, and positions inside
nodes. -/
def maxLevels : Nat := 255

/-- Absent and null children are the same. -/
def readChildren (read : Value → Checked SyntaxNode) : Value → Checked (Option (List SyntaxNode))
  | .null => .ok none
  | value => (value.readList read).map some

/-- Reads a node with a number of levels left for it and what lies inside it. -/
def readWithin : (levels : Nat) → Value → Checked SyntaxNode
  | 0 => fun _ => .fail .nestedTooDeep
  | levels + 1 => Value.readObject "SyntaxNode" fun fields =>
    let fileId := Value.required "file_id" Value.readInt fields
    let type := Value.required "type" Value.readText fields
    let startByte := Value.required "start_byte" Value.readInt fields
    let endByte := Value.required "end_byte" Value.readInt fields
    let startPoint := Value.required "start_point" (Position.readWithin levels) fields
    let endPoint := Value.required "end_point" (Position.readWithin levels) fields
    let children := Value.optional "children" none (readChildren (readWithin levels)) fields
    (((fileId.both type).both (startByte.both endByte)).both
      ((startPoint.both endPoint).both children)).map
      fun (((fileId, type), startByte, endByte), (startPoint, endPoint), children) =>
        .node fileId type ⟨startByte, endByte, startPoint, endPoint⟩ children

def read : Value → Checked SyntaxNode :=
  readWithin maxLevels

def fieldsOf (fileId : Int) (type : String) (extent : Extent) (children : Value) :
    List (String × Value) :=
  [("file_id", .int fileId), ("type", .text type), ("start_byte", .int extent.startByte),
    ("end_byte", .int extent.endByte), ("start_point", extent.startPoint.toValue),
    ("end_point", extent.endPoint.toValue), ("children", children)]

mutual

def toValue : SyntaxNode → Value
  | node fileId type extent none => .object (fieldsOf fileId type extent .null)
  | node fileId type extent (some children) =>
    .object (fieldsOf fileId type extent (.list (toValues children)))
termination_by structural n => n

def toValues : List SyntaxNode → List Value
  | [] => []
  | n :: rest => n.toValue :: toValues rest
termination_by structural ns => ns

end

end SyntaxNode

namespace ParseError

def read : Value → Checked ParseError :=
  Value.readObject "ParseError" fun fields =>
    let fileId := Value.required "file_id" Value.readInt fields
    let message := Value.required "message" Value.readText fields
    let startByte := Value.required "start_byte" Value.readInt fields
    let endByte := Value.required "end_byte" Value.readInt fields
    ((fileId.both message).both (startByte.both endByte)).map
      fun ((fileId, message), startByte, endByte) => ⟨fileId, message, startByte, endByte⟩

def toValue (error : ParseError) : Value :=
  .object [("file_id", .int error.fileId), ("message", .text error.message),
    ("start_byte", .int error.startByte), ("end_byte", .int error.endByte)]

end ParseError

namespace FileKind

def read : Value → Checked FileKind
  | .text s => match ofText? s with
    | some kind => .ok kind
    | none => .fail .notKind
  | _ => .fail .notKind

end FileKind

namespace ParsedFile

/-- The root of a file lies on the second level. -/
def read : Value → Checked ParsedFile :=
  Value.readObject "ParsedFile" fun fields =>
    let fileId := Value.required "file_id" Value.readInt fields
    let kind := Value.required "kind" FileKind.read fields
    let root := Value.required "root" (SyntaxNode.readWithin (SyntaxNode.maxLevels - 1)) fields
    let errors := Value.optional "errors" [] (Value.readList ParseError.read) fields
    ((fileId.both kind).both (root.both errors)).map
      fun ((fileId, kind), root, errors) => ⟨fileId, kind, root, errors⟩

def toValue (file : ParsedFile) : Value :=
  .object [("file_id", .int file.fileId), ("kind", .text file.kind.text),
    ("root", file.root.toValue), ("errors", .list (file.errors.map ParseError.toValue))]

end ParsedFile

end SourceAtlas
