import Mathlib.Data.List.DropRight
import SourceAtlas.Proofs.LineRanges
import SourceAtlas.Proofs.Text.Lines
import SourceAtlas.SourceFile

/-! # Locations

The location of the offset of a character is the line and the column that counting characters gives.
An offset that is not that of a character lies on a line too, which can be read like any other.
-/

namespace SourceAtlas

namespace SourceFile

variable {file : SourceFile} {text : String} {before line after : List Char} {place : ℕ}

theorem withoutLineEnd_ofList (line : List Char) :
    withoutLineEnd (String.ofList line) = String.ofList (line.rdropWhile (· ∈ ['\r', '\n'])) := by
  rw [withoutLineEnd, String.toList_ofList, List.rdropWhile]
  simp

/-! ## Lines of a record -/

section Snapshot

variable (h : file.snapshot = .of text)
include h

theorem bytes_of_snapshot : file.bytes = Utf8.encode text := by
  rw [bytes, h, Snapshot.of]

theorem lines_of_snapshot : file.lines = LineIndex.ofBytes (Utf8.encode text) := by
  rw [lines, h, Snapshot.of]

theorem length_lines_of_snapshot : file.lines.length = text.utf8ByteSize := by
  rw [lines_of_snapshot h, LineIndex.ofBytes, Utf8.length_encode]

/-- The line of an offset is the number of newlines before some character. -/
theorem exists_lineAt (offset : ℕ) :
    ∃ place ≤ text.toList.length,
      file.lineAt offset = (text.toList.take place).count '\n' := by
  obtain ⟨place, hp, hcount⟩ := Utf8.exists_count_take text.toList offset
  rw [String.ofList_toList] at hcount
  refine ⟨place, hp, ?_⟩
  rw [lineAt, lines_of_snapshot h, LineIndex.lineAt_eq (by omega), Int.toNat_natCast, hcount]

theorem lineAt_byteOffset (place : ℕ) :
    file.lineAt (Text.byteOffset text.toList place) = (text.toList.take place).count '\n' := by
  have hsplit : Utf8.encode text = Utf8.encode (String.ofList (text.toList.take place)) ++
      Utf8.encode (String.ofList (text.toList.drop place)) := by
    rw [← Utf8.encode_append, List.take_append_drop, String.ofList_toList]
  rw [lineAt, lines_of_snapshot h, LineIndex.lineAt_eq (by omega), Int.toNat_natCast, hsplit,
    Text.byteOffset, ← Utf8.length_encode, List.take_left, Utf8.count_encode]

end Snapshot

section IsLine

variable (h : file.snapshot = .of (String.ofList (before ++ (line ++ after))))
  (hl : IsLine '\n' before line after)
include h hl

theorem lineRange_of_isLine : file.lineRange (before.count '\n') =
    some ⟨(String.ofList before).utf8ByteSize, (String.ofList (before ++ line)).utf8ByteSize⟩ := by
  rw [lineRange, lines_of_snapshot h, Utf8.encode_append, Utf8.encode_append, ← Utf8.count_encode,
    LineIndex.lineRange_of_isLine (Utf8.isLine_encode hl), ← Utf8.encode_append,
    Utf8.length_encode, Utf8.length_encode]

theorem lineText_of_isLine :
    file.lineText (before.count '\n') = some (.ok (String.ofList line)) := by
  rw [lineText, lineRange_of_isLine h hl, Option.map_some, bytes_of_snapshot h]
  dsimp only
  rw [← Utf8.length_encode, ← Utf8.length_encode, Utf8.encode_append, Utf8.encode_append,
    Utf8.encode_append, Bytes.slice_append, Utf8.decode_encode]

theorem locate_of_isLine {offset : Int} (hat : file.lineAt offset = before.count '\n') :
    file.locate offset = some {
      line := before.count '\n' + 1
      column := column file.bytes (String.ofList before).utf8ByteSize offset
      range := ⟨(String.ofList before).utf8ByteSize, (String.ofList (before ++ line)).utf8ByteSize⟩
      text := String.ofList (line.rdropWhile (· ∈ ['\r', '\n'])) } := by
  rw [locate, hat, lineRange_of_isLine h hl, lineText_of_isLine h hl, ← withoutLineEnd_ofList]

end IsLine

/-! ## Places -/

theorem column_of_left {left more : List Char}
    (h : file.snapshot = .of (String.ofList (before ++ (left ++ more)))) :
    column file.bytes (String.ofList before).utf8ByteSize
      (String.ofList (before ++ left)).utf8ByteSize = left.length + 1 := by
  rw [column, bytes_of_snapshot h, ← Utf8.length_encode, ← Utf8.length_encode, Utf8.encode_append,
    Utf8.encode_append, Utf8.encode_append, Bytes.slice_append, Utf8.lenientLength_encode]

/-- The location of the offset of a character. -/
theorem locate_byteOffset (h : file.snapshot = .of text) (hp : place ≤ text.toList.length) :
    file.locate (Text.byteOffset text.toList place) = some {
      line := Text.lineNumber text.toList place
      column := Text.columnNumber text.toList place
      range := ⟨Text.byteOffset text.toList (Text.lineBegin text.toList place),
        Text.byteOffset text.toList (Text.lineEnd text.toList place)⟩
      text := String.ofList (((text.toList.take (Text.lineEnd text.toList place)).drop
        (Text.lineBegin text.toList place)).rdropWhile (· ∈ ['\r', '\n'])) } := by
  have hat := lineAt_byteOffset h place
  obtain ⟨chars, rfl⟩ := text.exists_eq_ofList
  rw [String.toList_ofList] at hp hat ⊢
  obtain ⟨before, left, right, after, rfl, rfl, hn, hl⟩ := exists_isLine_at '\n' hp
  obtain ⟨hline, hcolumn, hbegin, hend, hoffset⟩ := Text.numbers_of_isLine hl hn
  have hcount : ((before ++ (left ++ right ++ after)).take (before ++ left).length).count '\n' =
      before.count '\n' := Nat.succ_injective hline
  have hchars : before ++ (left ++ right ++ after) = before ++ (left ++ right) ++ after :=
    (List.append_assoc _ _ _).symm
  have hleft := List.append_assoc left right after ▸ h
  rw [hcount] at hat
  rw [locate_of_isLine h hl hat, hline, hcolumn, hbegin, hend, hoffset, column_of_left hleft,
    Text.byteOffset_append, hchars, Text.byteOffset_append, List.take_left, List.drop_left]
  rfl

theorem position?_of_locate {offset : Int} {location : Location}
    (h : file.locate offset = some location) :
    file.position? offset = some (location.line, location.column) := by
  unfold locate at h
  dsimp only at h
  split at h
  · next range line hr _ =>
    obtain rfl := Option.some.inj h
    rw [position?, lineStart, ((LineIndex.lineRange_eq_some_iff _).mp hr).1]
    rfl
  · cases h

/-- Every offset is on a line that can be read. -/
theorem exists_locate (h : file.snapshot = .of text) (offset : ℕ) :
    ∃ location, file.locate offset = some location := by
  obtain ⟨place, hp, hat⟩ := exists_lineAt h offset
  obtain ⟨chars, rfl⟩ := text.exists_eq_ofList
  rw [String.toList_ofList] at hp hat
  obtain ⟨before, left, right, after, rfl, rfl, hn, hl⟩ := exists_isLine_at '\n' hp
  have hcount : ((before ++ (left ++ right ++ after)).take (before ++ left).length).count '\n' =
      before.count '\n' := Nat.succ_injective (Text.numbers_of_isLine hl hn).1
  rw [hcount] at hat
  exact ⟨_, locate_of_isLine h hl hat⟩

end SourceFile

end SourceAtlas
