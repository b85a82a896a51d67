import SourceAtlas.Proofs.Locations
import SourceAtlas.Proofs.Session.Refreshing

/-! # Texts of lines

The lines of a record are cut from its bytes and read one by one. Each can be read, and their texts
are the text of the record cut after every newline character: no other character ends a line.
-/

namespace SourceAtlas.SourceFile

variable {file : SourceFile} {text : String}

theorem lineText_eq_none_iff (file : SourceFile) (line : Int) :
    file.lineText line = none ↔ line < 0 ∨ file.lines.lineCount ≤ line := by
  have hrange := file.lines.isSome_lineRange_iff line
  rw [lineText, Option.map_eq_none_iff, lineRange, ← Option.not_isSome_iff_eq_none, hrange]
  omega

section Snapshot

variable (h : file.snapshot = .of text)
include h

theorem lineCount_of_snapshot : file.lines.lineCount = text.toList.count '\n' + 1 := by
  have hcount := Utf8.count_encode text.toList
  rw [String.ofList_toList] at hcount
  rw [lines_of_snapshot h, LineIndex.lineCount_ofBytes, hcount]

theorem map_lineText {ended : List (List Char)} {last : List Char}
    (hc : IsCut '\n' text.toList ended last) :
    (List.range file.lines.lineCount).map (fun n : ℕ => file.lineText n) =
      (ended ++ [last]).map fun line => some (.ok (String.ofList line)) := by
  rw [lineCount_of_snapshot h]
  refine hc.map_range fun before line after hb hl => lineText_of_isLine ?_ hl
  rw [← hb, String.ofList_toList]
  exact h

theorem exists_lineText {line : Int} (hnonneg : 0 ≤ line) (hlt : line < file.lines.lineCount) :
    ∃ shown, file.lineText line = some (.ok shown) := by
  obtain ⟨n, rfl⟩ := Int.eq_ofNat_of_zero_le hnonneg
  rw [lineCount_of_snapshot h, Nat.cast_lt] at hlt
  obtain ⟨before, line, after, hitems, rfl, hline⟩ := exists_isLine_of_lt hlt
  have htext : text = String.ofList (before ++ (line ++ after)) := by
    rw [← hitems, String.ofList_toList]
  exact ⟨_, lineText_of_isLine (htext ▸ h) hline⟩

theorem lineText_ne_error (line : Int) (error : Utf8.Malformed) :
    file.lineText line ≠ some (.error error) := by
  intro he
  have hsome : ¬(line < 0 ∨ file.lines.lineCount ≤ line) := by
    rw [← lineText_eq_none_iff, he]
    nofun
  obtain ⟨shown, hs⟩ := exists_lineText h (by omega : 0 ≤ line) (by omega)
  cases he.symm.trans hs

end Snapshot

theorem snapshot_foldl_replaceContent (h : file.snapshot = .of file.source)
    (texts : List String) : (texts.foldl replaceContent file).snapshot =
      .of (texts.foldl replaceContent file).source := by
  rw [foldl_replaceContent]
  split
  · rfl
  · exact h

/-- Whatever a record was made with and whichever texts it was given since, its lines are those of
the last text. Exactly the lines from zero up to their number are there, all of them can be read,
and they are the text cut after every newline character and nowhere else. -/
theorem lineText_of_replacements (first name : String) (path : Option Path) (id : Int)
    (kind : FileKind) (others : List String) :
    let file := others.foldl replaceContent (make first name path id kind)
    file.source = others.getLast?.getD first ∧
    (∀ line error, file.lineText line ≠ some (.error error)) ∧
    (∀ line, file.lineText line = none ↔ line < 0 ∨ file.lines.lineCount ≤ line) ∧
    file.lines.lineCount = file.source.toList.count '\n' + 1 ∧
    ∃ ended last, IsCut '\n' file.source.toList ended last ∧
      (List.range file.lines.lineCount).map (fun n : ℕ => file.lineText n) =
        (ended ++ [last]).map fun line => some (.ok (String.ofList line)) := by
  intro file
  have hsnapshot : file.snapshot = .of file.source := snapshot_foldl_replaceContent rfl others
  obtain ⟨ended, last, hcut⟩ := exists_isCut '\n' file.source.toList
  exact ⟨source_foldl_replaceContent _ _, lineText_ne_error hsnapshot, lineText_eq_none_iff file,
    lineCount_of_snapshot hsnapshot, ended, last, hcut, map_lineText hsnapshot hcut⟩

example : (make "a\r\u2028b\n\u0085" "" none 0 .script).lineText 0 = some (.ok "a\r\u2028b\n") := by
  decide +kernel

end SourceAtlas.SourceFile
