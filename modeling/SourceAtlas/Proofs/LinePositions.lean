import SourceAtlas.Proofs.LineTexts

/-! # Positions in a record

Resolving the line of an offset, with the column counted in bytes, gives the offset back. A column
on a line resolves to an offset of that line and of no other. The line one past the last resolves
too, from the end of the text on.
-/

namespace SourceAtlas

namespace LineIndex

variable {bytes : Bytes} {line offset : Int} {range : Range}

/-- No line starts behind the end. -/
theorem le_length_of_lineStart {start : ℕ} (h : (ofBytes bytes).lineStart line = some start) :
    start ≤ bytes.length := by
  obtain ⟨hnonneg, hle⟩ := ((ofBytes bytes).isSome_lineStart_iff line).mp (h ▸ rfl)
  obtain ⟨n, rfl⟩ := Int.eq_ofNat_of_zero_le hnonneg
  rcases Nat.lt_or_ge n (ofBytes bytes).lineCount with hlt | hge
  · rw [lineStart_natCast _ hlt] at h
    have hmem : start ∈ startsOf bytes := by simpa [ofBytes] using Array.mem_of_getElem? h
    rcases List.mem_cons.mp hmem with rfl | hm
    · exact Nat.zero_le _
    · simpa using (bounds_of_mem_startsFrom hm).2
  · obtain rfl : n = (ofBytes bytes).lineCount := by omega
    rw [lineStart_lineCount] at h
    exact (Option.some.inj h).ge

theorem lineAt_of_mem_lineRange (hr : (ofBytes bytes).lineRange line = some range)
    (hs : range.start ≤ offset) (ht : offset < range.stop) :
    (ofBytes bytes).lineAt offset = line := by
  have hle := le_length_of_lineStart ((lineRange_eq_some_iff _).mp hr).2
  exact ((mem_lineRange_iff hr (by omega)).mp ⟨hs, ht⟩).symm

end LineIndex

namespace SourceFile

variable {file : SourceFile} {text : String} {line offset : Int} {range : LineIndex.Range}

theorem resolvePosition_eq_map (file : SourceFile) (line column : Int) :
    file.resolvePosition line column = (file.lineStart line).map fun start : ℕ => start + column := by
  unfold resolvePosition
  cases file.lineStart line <;> rfl

theorem resolvePosition_eq_none_iff (file : SourceFile) (line column : Int) :
    file.resolvePosition line column = none ↔ line < 0 ∨ file.lines.lineCount < line := by
  have hsome := file.lines.isSome_lineStart_iff line
  rw [resolvePosition_eq_map, Option.map_eq_none_iff, lineStart, ← Option.not_isSome_iff_eq_none,
    hsome]
  omega

theorem resolvePosition_lineCount (file : SourceFile) (column : Int) :
    file.resolvePosition file.lines.lineCount column = some (file.lines.length + column) := by
  rw [resolvePosition_eq_map, lineStart, LineIndex.lineStart_lineCount, Option.map_some]

theorem resolvePosition_of_lineRange (h : file.lineRange line = some range) (column : Int) :
    file.resolvePosition line column = some (range.start + column) := by
  rw [resolvePosition_eq_map, lineStart, ((LineIndex.lineRange_eq_some_iff _).mp h).1,
    Option.map_some]

section Snapshot

variable (h : file.snapshot = .of text)
include h

theorem resolvePosition_lineAt (ho : 0 ≤ offset) :
    ∃ start, file.lineStart (file.lineAt offset) = some start ∧
      file.resolvePosition (file.lineAt offset) (offset - start) = some offset := by
  obtain ⟨start, hs⟩ : ∃ start, file.lineStart (file.lineAt offset) = some start := by
    rw [lineStart, lineAt, lines_of_snapshot h]
    exact LineIndex.exists_lineStart ho
  refine ⟨start, hs, ?_⟩
  rw [resolvePosition_eq_map, hs, Option.map_some, add_sub_cancel]

/-- A column on a line resolves to an offset of that line only. -/
theorem lineAt_resolvePosition {column : Int} (hr : file.lineRange line = some range)
    (hc : 0 ≤ column) (hlt : column < (range.stop : Int) - range.start) :
    ∃ offset, file.resolvePosition line column = some offset ∧ range.start ≤ offset ∧
      offset < range.stop ∧ file.lineAt offset = line := by
  refine ⟨range.start + column, resolvePosition_of_lineRange hr column, by omega, by omega, ?_⟩
  rw [lineRange, lines_of_snapshot h] at hr
  rw [lineAt, lines_of_snapshot h]
  exact LineIndex.lineAt_of_mem_lineRange hr (by omega) (by omega)

end Snapshot

/-- Whatever a record was made with and whichever texts it was given since: the line of an offset
from zero on has a start, and resolves to the offset with the bytes from there to the offset as the
column. Every line has a range, and a column within its length resolves to an offset in the range,
whose line it is. With no check of the column, a line resolves exactly if it is not negative and at
most one past the last, and that one is at the end of the text. -/
theorem resolvePosition_of_replacements (first name : String) (path : Option Path) (id : Int)
    (kind : FileKind) (others : List String) :
    let file := others.foldl replaceContent (make first name path id kind)
    (∀ offset : Int, 0 ≤ offset → ∃ start, file.lineStart (file.lineAt offset) = some start ∧
      file.resolvePosition (file.lineAt offset) (offset - start) = some offset) ∧
    (∀ line : Int, 0 ≤ line → line < file.lines.lineCount →
      ∃ range, file.lineRange line = some range ∧
        ∀ column : Int, 0 ≤ column → column < (range.stop : Int) - range.start →
          ∃ offset, file.resolvePosition line column = some offset ∧ range.start ≤ offset ∧
            offset < range.stop ∧ file.lineAt offset = line) ∧
    ∀ line column : Int,
      (file.resolvePosition line column = none ↔ line < 0 ∨ file.lines.lineCount < line) ∧
      file.resolvePosition file.lines.lineCount column = some (file.bytes.length + column) := by
  intro file
  have hsnapshot : file.snapshot = .of file.source := snapshot_foldl_replaceContent rfl others
  refine ⟨fun offset ho => resolvePosition_lineAt hsnapshot ho, ?_, ?_⟩
  · intro line hnonneg hlt
    obtain ⟨range, hr⟩ := Option.isSome_iff_exists.mp
      ((file.lines.isSome_lineRange_iff line).mpr ⟨hnonneg, hlt⟩)
    exact ⟨range, hr, fun column hc hlt => lineAt_resolvePosition hsnapshot hr hc hlt⟩
  · intro line column
    refine ⟨resolvePosition_eq_none_iff file line column, ?_⟩
    rw [resolvePosition_lineCount, length_lines_of_snapshot hsnapshot, bytes_of_snapshot hsnapshot,
      Utf8.length_encode]

/-- From the start of an empty line, inside a character, and past the last line. -/
theorem resolvePosition_of_emptyLine :
    let file := ["a\n\né"].foldl replaceContent (make "b" "n" none 0 .script)
    (∃ start, file.lineStart (file.lineAt 2) = some start ∧
      file.resolvePosition (file.lineAt 2) (2 - start) = some 2) ∧
    (∃ offset, file.resolvePosition 2 1 = some offset ∧ 3 ≤ offset ∧ offset < 5 ∧
      file.lineAt offset = 2) ∧
    file.resolvePosition 4 0 = none ∧
    file.resolvePosition file.lines.lineCount 2 = some (file.bytes.length + 2) := by
  intro file
  obtain ⟨hoffset, hline, hall⟩ :=
    resolvePosition_of_replacements "b" "n" none 0 .script ["a\n\né"]
  obtain ⟨range, hr, hcolumn⟩ := hline 2 (by decide) (by decide +kernel)
  have hknown : file.lineRange 2 = some ⟨3, 5⟩ := by decide +kernel
  obtain rfl := Option.some.inj (hr.symm.trans hknown)
  exact ⟨hoffset 2 (by decide), hcolumn 1 (by decide) (by decide),
    (hall 4 0).1.mpr (Or.inr (by decide +kernel)), (hall 0 2).2⟩

end SourceFile

end SourceAtlas
