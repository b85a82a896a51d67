import Mathlib
import SourceAtlas.Proofs.Command.Names
import SourceAtlas.Proofs.Locations
import SourceAtlas.Proofs.Session.Taking
import SourceAtlas.Proofs.Syntax.Scripts

/-! # Reports of parsing

Parsing hands one report to the console for each error of the loaded files, and then says how many
there are. Files are in the order of their ids and errors in the order of their file. A report says
where its error begins, past the end of the file too; the console may take the number of its line
for a short code.
-/

namespace SourceAtlas

/-- Whether a text has a tree, and no node of it begins at a negative offset. -/
def Grammar.Covers (grammar : Grammar) (source : String) : Prop :=
  ∃ tree, grammar source = some tree ∧ ∀ part ∈ tree.subtrees, 0 ≤ part.label.extent.startByte

/-! ## Places of errors -/

namespace SourceFile

variable {file : SourceFile} {text : String}

/-- The bytes of the last line of those before an offset. -/
def lineBefore (bytes : Bytes) (offset : ℕ) : Bytes :=
  (bytes.take offset).rtakeWhile (· ≠ LineIndex.newline)

theorem rtakeWhile_of_begins {before left : Bytes} (hn : LineIndex.newline ∉ left)
    (hb : before = [] ∨ ∃ others, before = others ++ [LineIndex.newline]) :
    (before ++ left).rtakeWhile (· ≠ LineIndex.newline) = left := by
  induction left using List.reverseRecOn with
  | nil =>
    rcases hb with rfl | ⟨others, rfl⟩
    · rfl
    · rw [List.append_nil, List.rtakeWhile_concat_neg _ _ _ (by simp)]
  | append_singleton left b ih =>
    rw [List.mem_append, not_or, List.mem_singleton] at hn
    rw [← List.append_assoc, List.rtakeWhile_concat_pos _ _ _ (by simpa using Ne.symm hn.2),
      ih hn.1]

/-- The position of an offset, which may lie past the end: its line is that of the newlines before
it, and its column is one after a lenient reading of the bytes between the last of them and it. -/
theorem position?_natCast (h : file.snapshot = .of text) (offset : ℕ) :
    file.position? offset = some (
      (((Utf8.encode text).take offset).count LineIndex.newline : ℤ) + 1,
      Utf8.lenientLength (lineBefore (Utf8.encode text) offset) + 1) := by
  obtain ⟨before, left, hsplit, hn, hb⟩ :=
    exists_begins LineIndex.newline ((Utf8.encode text).take offset)
  have hbytes : Utf8.encode text = before ++ (left ++ (Utf8.encode text).drop offset) := by
    rw [← List.append_assoc, ← hsplit, List.take_append_drop]
  have hcount : ((Utf8.encode text).take offset).count LineIndex.newline =
      before.count LineIndex.newline := by
    rw [hsplit, List.count_append, List.count_eq_zero.mpr hn, Nat.add_zero]
  have hstart : (LineIndex.ofBytes (Utf8.encode text)).lineStart
      (before.count LineIndex.newline) = some before.length := by
    rw [hbytes]
    exact LineIndex.lineStart_of_begins _ hb
  have hcolumn : column (Utf8.encode text) before.length offset =
      Utf8.lenientLength (lineBefore (Utf8.encode text) offset) + 1 := by
    rw [column, Bytes.slice_natCast, lineBefore, hsplit, List.drop_left, rtakeWhile_of_begins hn hb]
  rw [position?, lineAt, lineStart, bytes_of_snapshot h, lines_of_snapshot h,
    LineIndex.lineAt_eq (Int.natCast_nonneg offset), Int.toNat_natCast, hcount, hstart]
  exact congrArg (fun column => some ((before.count LineIndex.newline : ℤ) + 1, column)) hcolumn

end SourceFile

/-! ## Records of a load -/

namespace Session

variable {s s' : Session} {config : Config} {roots : List Path} {pool : Pool} {table : Table}
  {ids : List Int}

/-- A table that is loaded has as many records as entries, and their ids differ. -/
theorem nodup_recordsOf_extend (h : s.extend config .empty roots pool = (s', .ok (table, ids))) :
    ((s'.recordsOf table).map (·.id)).Nodup ∧ table.size = (s'.recordsOf table).length := by
  obtain ⟨paths, hc, -, hr⟩ := perm_recordsOf_extend h
  have hextend := (extend_of_none hc).symm.trans h
  obtain ⟨-, hok⟩ := Prod.mk.inj hextend
  obtain ⟨rfl, -⟩ := Prod.mk.inj (Except.ok.inj hok)
  constructor
  · rw [(hr.map (·.id)).nodup_iff, map_id_arrivals]
    exact List.nodup_range.map fun a b (hab : s.counter.next + (a : Int) = _ + _) => by omega
  · rw [hr.length_eq, length_arrivals, (s.isBatch_batchOf config pool paths).size_eq]

end Session

namespace Command

open Console (Codes Presentable Printable Terminal shown shownFolded)
open Markup (Bare)
open Text (cells)

variable {environment : Config.Environment} {config : Config} {s s' : Session} {roots : List Path}
  {terminal : Terminal} {table : Table} {ids : List Int} {file : SourceFile} {error : ParseError}
  {files : List SourceFile} {entries : List Console.Entry}

/-! ## Reports -/

/-- The line on which an error begins: one after the number of newlines before it. -/
def lineOf (file : SourceFile) (error : ParseError) : ℕ :=
  ((Utf8.encode file.source).take error.startByte.toNat).count LineIndex.newline + 1

def columnOf (file : SourceFile) (error : ParseError) : ℕ :=
  Utf8.lenientLength (SourceFile.lineBefore (Utf8.encode file.source) error.startByte.toNat) + 1

def reportOf (file : SourceFile) (error : ParseError) : String :=
  file.displayName ++ ":" ++ toString (lineOf file error) ++ ":" ++
    toString (columnOf file error) ++ ": " ++ error.message

/-- What is reported of a file: one report for each error, in their order. -/
def reportsOf (grammar : Grammar) (file : SourceFile) : List String :=
  match file.parse grammar with
  | none => []
  | some parsed => parsed.errors.map (reportOf file)

theorem position?_eq (h : file.snapshot = .of file.source) (hs : 0 ≤ error.startByte) :
    file.position? error.startByte = some ((lineOf file error : ℤ), columnOf file error) := by
  obtain ⟨offset, ho⟩ := Int.eq_ofNat_of_zero_le hs
  rw [lineOf, columnOf, ho, SourceFile.position?_natCast h]
  rfl

theorem errorEntries_eq {errors : List ParseError} (h : file.snapshot = .of file.source)
    (hs : ∀ error ∈ errors, 0 ≤ error.startByte) :
    errorEntries file errors = ((errors.map (reportOf file)).map .literal, none) := by
  induction errors with
  | nil => rfl
  | cons error rest ih =>
    obtain ⟨herror, hrest⟩ := List.forall_mem_cons.mp hs
    have he : errorEntry file error = some (.literal (reportOf file error)) := by
      rw [errorEntry, position?_eq h herror]
      rfl
    rw [errorEntries, he, ih hrest]
    rfl

theorem parseEntries_eq {grammar : Grammar} (h : ∀ file ∈ files, file.snapshot = .of file.source)
    (hg : ∀ file ∈ files, grammar.Covers file.source) :
    parseEntries grammar files = ((files.flatMap (reportsOf grammar)).map .literal, none) := by
  induction files with
  | nil => rfl
  | cons file rest ih =>
    obtain ⟨hfile, hrest⟩ := List.forall_mem_cons.mp h
    obtain ⟨⟨tree, ht, hstart⟩, hcovers⟩ := List.forall_mem_cons.mp hg
    have hp : file.parse grammar = some (.ofTree file.kind file.id tree) := by
      rw [SourceFile.parse, ht, Option.map_some]
    have hs : ∀ error ∈ (ParsedFile.ofTree file.kind file.id tree).errors,
        0 ≤ error.startByte := by
      intro error he
      obtain ⟨part, hpart, hbyte⟩ := ParsedFile.exists_part_of_mem_errors he
      exact hbyte ▸ hstart part hpart
    rw [parseEntries, hp]
    dsimp only
    rw [errorEntries_eq hfile hs, ih hrest hcovers]
    simp only [List.flatMap_cons, reportsOf, hp, List.map_append]

theorem printable_reportOf (hn : Printable file.displayName.toList)
    (hm : Printable error.message.toList) : Printable (reportOf file error).toList := by
  have hnumber := fun n => (presentable_bare_nat n).1.printable
  have hcolon : Printable ":".toList := by decide +kernel
  have hblank : Printable ": ".toList := by decide +kernel
  simp only [reportOf, String.toList_append, Console.printable_append_iff]
  exact ⟨⟨⟨⟨⟨⟨hn, hcolon⟩, hnumber _⟩, hcolon⟩, hnumber _⟩, hblank⟩, hm⟩

/-- Of a report only the number of its line may be taken for a short code. -/
theorem shownFor_reportOf {codes : Codes} (hn : ':' ∉ file.displayName.toList)
    (hc : codes.shownFor error.message = error.message) :
    codes.shownFor (reportOf file error) = file.displayName ++
      codes.ofNumber (lineOf file error) ++
        (toString (columnOf file error) ++ ": " ++ error.message) := by
  have hreport : reportOf file error = file.displayName ++ ":" ++ toString (lineOf file error) ++
      ":" ++ (toString (columnOf file error) ++ ": " ++ error.message) := by
    simp only [reportOf, String.append_assoc]
  rw [hreport, Codes.shownFor_position hn, Codes.shownFor_append (Codes.colon_not_mem_toString _),
    hc]

/-- A report is printed as it is if the number of its line is no short code. -/
theorem shown_reportOf {codes : Codes} (hn : Presentable file.displayName.toList)
    (hl : codes.lookup (toString (lineOf file error)) = none)
    (hm : Printable error.message.toList) (hc : codes.shownFor error.message = error.message) :
    shown (codes.shownFor (reportOf file error)) = reportOf file error := by
  have hreport : codes.shownFor (reportOf file error) = reportOf file error := by
    rw [shownFor_reportOf hn.colon_not_mem hc, Codes.ofNumber_of_lookup hl]
    simp only [reportOf, String.append_assoc]
  rw [hreport, (printable_reportOf hn.printable hm).shown_eq]

/-! ## Counts -/

/-- What is said at the end, of how many errors and files. -/
def summary (errors files : ℕ) : String :=
  if errors = 0 then "Parsed " ++ toString files ++ " file(s) without errors"
  else toString errors ++ " error(s)"

def closing (errors files : ℕ) : String :=
  if errors = 0 then "[green]Parsed " ++ toString files ++ " file(s) without errors[/green]"
  else "[red]" ++ toString errors ++ " error(s)[/red]"

theorem presentable_bare_summary (errors files : ℕ) :
    Presentable (summary errors files).toList ∧ Bare (summary errors files).toList := by
  unfold summary
  split_ifs <;> simp only [String.toList_append, Console.presentable_append_iff,
    Markup.bare_append_iff]
  · obtain ⟨hp, hb⟩ := presentable_bare_nat files
    exact ⟨⟨⟨Console.presentable_of_ascii (by decide), hp⟩,
      Console.presentable_of_ascii (by decide)⟩, ⟨by decide, hb⟩, by decide⟩
  · obtain ⟨hp, hb⟩ := presentable_bare_nat errors
    exact ⟨⟨hp, Console.presentable_of_ascii (by decide)⟩, hb, by decide⟩

theorem render_closing (errors files : ℕ) :
    (Console.Entry.marked (closing errors files)).render terminal =
      .ok (shownFolded terminal.width (summary errors files) ++ "\n") := by
  obtain ⟨hp, hbare⟩ := presentable_bare_summary errors files
  have hlast : (summary errors files).toList.getLast? ≠ some '\\' :=
    fun hl => (hbare _ (List.mem_of_getLast? hl)).2.1 rfl
  obtain ⟨style, hs, hmarkup⟩ : ∃ style : String, (style = "red" ∨ style = "green") ∧
      (closing errors files).toList = '[' :: style.toList ++ ']' :: (summary errors files).toList ++
        '[' :: '/' :: style.toList ++ ']' :: [] := by
    unfold closing summary
    split_ifs
    · exact ⟨"green", Or.inr rfl, by simp⟩
    · exact ⟨"red", Or.inl rfl, by simp⟩
  have hrender : Markup.render terminal.codes (closing errors files) =
      .ok (String.ofList ((summary errors files).toList ++ [])) :=
    render_styled hs (Markup.isLiteral_of_bare hbare) hlast rfl (by rwa [List.append_nil]) hmarkup
  rw [List.append_nil, String.ofList_toList] at hrender
  rw [Console.Entry.render, hrender, Except.map]

/-- What is said at the end is shown as it is if it fits on a line. -/
theorem shownFolded_summary {errors files width : ℕ}
    (hw : cells (summary errors files).toList ≤ width) :
    shownFolded width (summary errors files) = summary errors files := by
  refine Console.shownFolded_of_fits (presentable_bare_summary errors files).1.printable hw ?_
  unfold summary
  split_ifs <;> rw [String.toList_append, List.getLast?_append]
  · have hlast : " file(s) without errors".toList.getLast? = some 's' := by decide
    rw [hlast, Option.some_or]
    decide
  · have hlast : " error(s)".toList.getLast? = some ')' := by decide
    rw [hlast, Option.some_or]
    decide

/-! ## Output -/

theorem renderAll_literals (terminal : Terminal) (texts : List String)
    (entries : List Console.Entry) :
    Console.renderAll terminal (texts.map .literal ++ entries) =
      (String.join (texts.map fun text => shown (terminal.codes.shownFor text) ++ "\n") ++
        (Console.renderAll terminal entries).1, (Console.renderAll terminal entries).2) := by
  induction texts with
  | nil => simp
  | cons text rest ih =>
    rw [List.map_cons, List.cons_append, Console.renderAll, Console.Entry.render, ih, List.map_cons,
      String.join_cons, String.append_assoc]

theorem outcome_of_reports (terminal : Terminal) (s : Session) (least : Level)
    (reports : List String) (files code : ℕ) :
    let report : Report := ⟨s, reports.map .literal ++ [.marked (closing reports.length files)],
      code, none, []⟩
    let outcome := report.outcome terminal least
    outcome.output =
        String.join (reports.map fun text => shown (terminal.codes.shownFor text) ++ "\n") ++
          (shownFolded terminal.width (summary reports.length files) ++ "\n") ∧
      outcome.exitCode = code ∧ outcome.crash = none := by
  intro report outcome
  have hclosing : Console.renderAll terminal [.marked (closing reports.length files)] =
      (shownFolded terminal.width (summary reports.length files) ++ "\n", none) := by
    simp only [Console.renderAll, render_closing, String.append_empty]
  simp only [outcome, report, Report.outcome, renderAll_literals, hclosing, and_self]

/-- A failure that is reported is not an exception, but what is said of it may be one. -/
theorem outcome_of_failed (terminal : Terminal) (s : Session) (least : Level)
    (entries : List Console.Entry) :
    ((Report.failed s entries).outcome terminal least).exitCode = 1 ∧
      ((Report.failed s entries).outcome terminal least).crash ≠ some .noLine := by
  simp only [Report.failed, Report.outcome]
  split <;> simp

/-! ## Parsing -/

theorem pairwise_byId (h : ((s.recordsOf table).map (·.id)).Nodup) :
    (byId s table).Pairwise (·.id < ·.id) := by
  have hsorted : (byId s table).Pairwise fun a b => decide (a.id ≤ b.id) :=
    List.pairwise_mergeSort (fun a b c hab hbc => by simp only [decide_eq_true_eq] at *; omega)
      (fun a b => by simpa using le_total a.id b.id) _
  rw [← ((perm_byId s table).map _).nodup_iff, List.Nodup, List.pairwise_map] at h
  exact hsorted.imp₂ (fun a b hab hne => lt_of_le_of_ne (of_decide_eq_true hab) hne) h

/-- Parsing a table reports all errors of its records and then how many there are. -/
theorem parsing_eq (hr : table.size = (s.recordsOf table).length)
    (hsnapshot : ∀ file ∈ s.recordsOf table, file.snapshot = .of file.source)
    (hg : ∀ file ∈ s.recordsOf table, s.grammar.Covers file.source) :
    let reports := (byId s table).flatMap (reportsOf s.grammar)
    parsing s table = ⟨s, reports.map .literal ++
      [.marked (closing reports.length (byId s table).length)],
      if reports = [] then 0 else 1, none, []⟩ := by
  intro reports
  have hentries : parseEntries s.grammar (byId s table) = (reports.map .literal, none) :=
    parseEntries_eq (fun file hf => hsnapshot file (mem_byId.mp hf))
      fun file hf => hg file (mem_byId.mp hf)
  rw [parsing, hentries, (perm_byId s table).length_eq, ← hr]
  clear_value reports
  dsimp only
  rw [List.length_map]
  rcases eq_or_ne reports [] with rfl | hne
  · rfl
  · have hsome : (reports.map Console.Entry.literal).isEmpty = false := by
      rw [List.isEmpty_eq_false_iff]
      exact List.map_eq_nil_iff.not.mpr hne
    rw [hsome, if_neg Bool.false_ne_true, if_neg hne, closing,
      if_neg (List.length_eq_zero_iff.not.mpr hne), Report.failed]

theorem run_parse_of_empty (host : Host) (batches : List Batch)
    (hc : Config.ofEnvironment environment = .ok config)
    (he : s.extend config .empty roots host.pool = (s', .ok (table, ids)))
    (hnil : s'.recordsOf table = []) :
    run environment host batches s (.parse roots) =
      .failed s' [.marked "[red]No files to lint were found.[/red]"] := by
  have hzero : table.size = 0 := by
    rw [(Session.nodup_recordsOf_extend he).2, hnil, List.length_nil]
  simp only [run, loading, hc, he, if_pos hzero]

theorem run_parse_of_records (host : Host) (batches : List Batch)
    (hc : Config.ofEnvironment environment = .ok config)
    (he : s.extend config .empty roots host.pool = (s', .ok (table, ids)))
    (hne : s'.recordsOf table ≠ [])
    (hg : ∀ file ∈ s'.recordsOf table, s.grammar.Covers file.source) :
    let reports := (byId s' table).flatMap (reportsOf s.grammar)
    run environment host batches s (.parse roots) = ⟨s', reports.map .literal ++
      [.marked (closing reports.length (byId s' table).length)],
      if reports = [] then 0 else 1, none, []⟩ := by
  obtain ⟨_, -, hgrammar, -⟩ := Session.perm_recordsOf_extend he
  have hsize := (Session.nodup_recordsOf_extend he).2
  have hsnapshot : ∀ file ∈ s'.recordsOf table, file.snapshot = .of file.source := by
    intro file hf
    obtain ⟨id, path, text, -, rfl⟩ := Session.exists_ofDisk_of_extend he hf
    rfl
  have hsome : table.size ≠ 0 := hsize ▸ List.length_eq_zero_iff.not.mpr hne
  have hparsing := parsing_eq hsize hsnapshot (hgrammar.symm ▸ hg)
  rw [hgrammar] at hparsing
  exact (run_of_loaded hc he hsome _).trans hparsing

end Command

end SourceAtlas
