import Mathlib
import SourceAtlas.Proofs.Command.Parsing
import SourceAtlas.Proofs.Session.Candidates

/-! # Positions that commands report

A file is located and parsed with the lines and columns that counting the characters of its text
gives. No offset up to its end is without a line, and no error of a tree is. Where the console leaves
a position alone it is printed as it is.
-/

namespace SourceAtlas

/-! ## Loads of one file -/

namespace Session

variable {s : Session} {config : Config} {path : Path} {text : String}

/-- Whether a load that is given the path of a file takes the file, with this text. -/
structure Accepts (s : Session) (config : Config) (path : Path) (text : String) : Prop where
  isFile : s.files.isFile path = .ok true
  notIgnored : ¬config.ignores path.name
  reads : config.reads path
  readSource : s.files.readSource path = .ok text

theorem Accepts.candidates (h : s.Accepts config path text) :
    config.candidates s.files [path] = ([path], none) := by
  have hfile := h.isFile
  unfold FileSystem.isFile at hfile
  split at hfile
  · next bytes hs =>
    rw [Config.candidates_singleton, FileSystem.walk_of_other h.notIgnored hs nofun]
    have hreads : [path].filter config.reads = [path] := List.filter_cons_of_pos h.reads
    exact Prod.ext hreads rfl
  · cases hfile
  · cases hfile

theorem Accepts.extend (h : s.Accepts config path text) (pool : Pool) :
    ∃ s' table ids, s.extend config .empty [path] pool = (s', .ok (table, ids)) ∧
      table.size ≠ 0 ∧ s'.recordsOf table = [SourceFile.ofDisk s.counter.next text path] := by
  have hextend : s.extend config .empty [path] pool = _ := extend_of_none h.candidates
  obtain ⟨paths, hc, -, hr⟩ := perm_recordsOf_extend hextend
  obtain rfl : [path] = paths := (Prod.mk.inj (h.candidates.symm.trans hc)).1
  have hissued : pool.issued config [path] = [path] :=
    List.perm_singleton.mp (pool.perm_issued config [path])
  have htexts : s.files.texts (pool.issued config [path]) = [(path, text)] := by
    rw [hissued]
    exact FileSystem.texts_cons_of_ok h.readSource
  rw [htexts] at hr
  rw [arrivals_cons] at hr
  refine ⟨_, _, _, hextend, ?_, List.perm_singleton.mp hr⟩
  rw [(nodup_recordsOf_extend hextend).2, hr.length_eq]
  exact Nat.one_ne_zero

end Session

namespace Command

open Console (Codes Presentable Printable Terminal shown shownFolded)
open Markup (Bare)
open Text (cells)

variable {environment : Config.Environment} {config : Config} {s s' : Session} {terminal : Terminal} {table : Table} {ids : List Int} {file : SourceFile}
  {path : Path} {text : String} {rest : List SourceFile} {offset place : ℕ}
  {location : SourceFile.Location} {roots : List Path} {parsed : ParsedFile} {error : ParseError}

/-! ## Locating -/

theorem locating_of_le (hr : s.recordsOf table = file :: rest) (ho : offset ≤ file.lines.length)
    (hl : file.locate offset = some location) :
    locating offset s table = .done s (locationEntries file.displayName location) := by
  simp only [locating, hr, if_neg (Nat.not_lt.mpr ho), hl]

/-- Locating the offset of a character gives its position, and the line that it is on. -/
theorem exists_location (hr : s.recordsOf table = file :: rest) (h : file.snapshot = .of text)
    (hp : place ≤ text.toList.length) :
    ∃ location, locating (Text.byteOffset text.toList place) s table =
        .done s (locationEntries file.displayName location) ∧
      location.line = Text.lineNumber text.toList place ∧
      location.column = Text.columnNumber text.toList place ∧
      location.range = ⟨Text.byteOffset text.toList (Text.lineBegin text.toList place),
        Text.byteOffset text.toList (Text.lineEnd text.toList place)⟩ ∧
      location.text = String.ofList (((text.toList.take (Text.lineEnd text.toList place)).drop
        (Text.lineBegin text.toList place)).rdropWhile (· ∈ ['\r', '\n'])) := by
  have hle := Text.byteOffset_le text.toList place
  rw [String.ofList_toList, ← SourceFile.length_lines_of_snapshot h] at hle
  exact ⟨_, locating_of_le hr hle (SourceFile.locate_byteOffset h hp), rfl, rfl, rfl, rfl⟩

def bytesLine (start stop : ℕ) : String :=
  "line bytes: " ++ toString start ++ ".." ++ toString stop

theorem printable_bare_bytesLine (start stop : ℕ) :
    Printable (bytesLine start stop).toList ∧ Bare (bytesLine start stop).toList := by
  obtain ⟨hstart, hbare⟩ := presentable_bare_nat start
  obtain ⟨hstop, hbare'⟩ := presentable_bare_nat stop
  simp only [bytesLine, String.toList_append, Console.printable_append_iff,
    Markup.bare_append_iff]
  exact ⟨⟨⟨⟨Console.printable_of_ascii (by decide), hstart.printable⟩,
    Console.printable_of_ascii (by decide)⟩, hstop.printable⟩,
    ⟨⟨by decide, hbare⟩, by decide⟩, hbare'⟩

theorem render_bytesLine (codes : Codes) (start stop : ℕ) :
    Markup.render codes (bytesLine start stop) = .ok (bytesLine start stop) := by
  have hnumbers : ':' ∉ (toString start ++ ".." ++ toString stop).toList := by
    simp only [String.toList_append, List.mem_append, not_or]
    exact ⟨⟨Codes.colon_not_mem_toString _, by decide⟩, Codes.colon_not_mem_toString _⟩
  have hline : bytesLine start stop =
      "line bytes" ++ ": " ++ (toString start ++ ".." ++ toString stop) := by
    refine String.toList_inj.mp ?_
    simp [bytesLine]
  rw [Markup.render_of_literal (Markup.isLiteral_of_bare (printable_bare_bytesLine start stop).2),
    hline, Codes.shownFor_append (by decide), Codes.shownFor_of_not_mem hnumbers]

theorem shownFolded_bytesLine {start stop width : ℕ}
    (hw : cells (bytesLine start stop).toList ≤ width) :
    shownFolded width (bytesLine start stop) = bytesLine start stop := by
  refine Console.shownFolded_of_fits (printable_bare_bytesLine start stop).1 hw ?_
  have hne : (toString stop).toList ≠ [] := by
    rw [Nat.toString_eq_repr, Nat.toList_repr]
    exact Nat.toDigits_ne_nil
  have hlast : (bytesLine start stop).toList.getLast? = (toString stop).toList.getLast? := by
    rw [bytesLine, String.toList_append, List.getLast?_append_of_ne_nil _ hne]
  rw [hlast, Option.any_eq_false]
  intro c hc
  exact Bool.eq_false_iff.mpr
    (Text.not_isBlank_of_isDigit (Text.isDigit_of_mem_toString (List.mem_of_getLast? hc)))

theorem renderAll_locationEntries (terminal : Terminal) (name : String)
    (location : SourceFile.Location) :
    Console.renderAll terminal (locationEntries name location) =
      (shown (terminal.codes.shownFor (name ++ ":" ++ toString location.line ++ ":" ++
          toString location.column)) ++ "\n" ++
        (shownFolded terminal.width (bytesLine location.range.start location.range.stop) ++ "\n" ++
          (shown (terminal.codes.shownFor location.text) ++ "\n")), none) := by
  have hrender := render_bytesLine terminal.codes location.range.start location.range.stop
  rw [bytesLine] at hrender
  simp only [locationEntries, Console.renderAll, Console.Entry.render, hrender, Except.map,
    String.append_empty, bytesLine]

theorem outcome_of_locationEntries (terminal : Terminal) (s : Session) (least : Level)
    (name : String) (location : SourceFile.Location) :
    let outcome := (Report.done s (locationEntries name location)).outcome terminal least
    outcome.exitCode = 0 ∧ outcome.crash = none ∧
      outcome.output = (Console.renderAll terminal (locationEntries name location)).1 := by
  simp only [Report.done, Report.outcome, renderAll_locationEntries, and_self]

/-- A position is printed as it is if the number of its line is no short code. -/
theorem shown_position {codes : Codes} {name : String} {line column : ℕ}
    (hn : Presentable name.toList) (hl : codes.lookup (toString line) = none) :
    shown (codes.shownFor (name ++ ":" ++ toString line ++ ":" ++ toString column)) =
      name ++ ":" ++ toString line ++ ":" ++ toString column := by
  have hnumber := fun n => (presentable_bare_nat n).1.printable
  have hcolon : Printable ":".toList := Console.printable_of_ascii (by decide)
  rw [Codes.shownFor_position hn.colon_not_mem, Codes.ofNumber_of_lookup hl,
    Codes.shownFor_of_not_mem (Codes.colon_not_mem_toString column)]
  simp only [← String.append_assoc]
  refine Printable.shown_eq ?_
  simp only [String.toList_append, Console.printable_append_iff]
  exact ⟨⟨⟨⟨hn.printable, hcolon⟩, hnumber line⟩, hcolon⟩, hnumber column⟩

/-- A location is printed as it is where the console leaves its parts alone. -/
theorem output_of_location {name : String} {line : ℕ} (s : Session) (least : Level)
    (hline : location.line = line) (hn : Presentable name.toList)
    (hl : terminal.codes.lookup (toString line) = none)
    (hw : cells (bytesLine location.range.start location.range.stop).toList ≤ terminal.width)
    (ht : Printable location.text.toList)
    (hc : terminal.codes.shownFor location.text = location.text) :
    ((Report.done s (locationEntries name location)).outcome terminal least).output =
      name ++ ":" ++ toString line ++ ":" ++ toString location.column ++ "\n" ++
        (bytesLine location.range.start location.range.stop ++ "\n" ++
          (location.text ++ "\n")) := by
  have hnumber : toString location.line = toString line := by
    rw [hline]
    rfl
  rw [(outcome_of_locationEntries terminal s least name location).2.2, renderAll_locationEntries,
    hnumber, shown_position hn hl, shownFolded_bytesLine hw, hc, Printable.shown_eq ht]

/-- Locating in a loaded file ends as the offset asks for. -/
theorem outcome_of_locating (hr : s.recordsOf table = file :: rest)
    (h : file.snapshot = .of text) (offset : ℕ) (least : Level) :
    let outcome := (locating offset s table).outcome terminal least
    outcome.crash ≠ some .noLine ∧
      (offset ≤ text.utf8ByteSize → outcome.exitCode = 0 ∧ outcome.crash = none) ∧
      (text.utf8ByteSize < offset → outcome.exitCode = 1) := by
  rw [← SourceFile.length_lines_of_snapshot h]
  rcases Nat.lt_or_ge file.lines.length offset with hlt | hle
  · obtain ⟨entries, hlocating⟩ : ∃ entries, locating offset s table = .failed s entries := by
      simp only [locating, hr, if_pos hlt]
      exact ⟨_, rfl⟩
    obtain ⟨hcode, hcrash⟩ := outcome_of_failed terminal s least entries
    rw [hlocating]
    exact ⟨hcrash, fun hle => absurd hlt (Nat.not_lt.mpr hle), fun _ => hcode⟩
  · obtain ⟨location, hl⟩ := SourceFile.exists_locate h offset
    rw [locating_of_le hr hle hl]
    obtain ⟨hcode, hcrash, -⟩ :=
      outcome_of_locationEntries terminal s least file.displayName location
    refine ⟨?_, fun _ => ⟨hcode, hcrash⟩, fun hlt => absurd hlt (Nat.not_lt.mpr hle)⟩
    rw [hcrash]
    exact (Option.some_ne_none _).symm

theorem run_locate_of_accepts (host : Host) (hc : Config.ofEnvironment environment = .ok config)
    (ha : s.Accepts config path text) :
    ∃ s' table, s'.recordsOf table = [SourceFile.ofDisk s.counter.next text path] ∧
      ∀ batches offset, run environment host batches s (.locate path offset) =
        locating offset s' table := by
  obtain ⟨s', table, ids, he, hs, hr⟩ := ha.extend host.pool
  refine ⟨s', table, hr, fun batches offset => ?_⟩
  rw [run, ha.isFile]
  exact run_of_loaded hc he hs _

/-! ## Parsing -/

/-- An error that begins at a character is reported with the line and the column of that. -/
theorem position_of_place (h : file.snapshot = .of file.source)
    (hplace : place ≤ file.source.toList.length)
    (hbyte : error.startByte = Text.byteOffset file.source.toList place) :
    lineOf file error = Text.lineNumber file.source.toList place ∧
      columnOf file error = Text.columnNumber file.source.toList place := by
  have hreported := position?_eq h (hbyte ▸ Int.natCast_nonneg _)
  have hlocated := SourceFile.position?_of_locate (SourceFile.locate_byteOffset h hplace)
  rw [← hbyte, hreported] at hlocated
  obtain ⟨hline, hcolumn⟩ := Prod.mk.inj (Option.some.inj hlocated)
  exact ⟨Int.natCast_inj.mp hline, hcolumn⟩

theorem toList_join_lines (f : String → String) (texts : List String) :
    (String.join (texts.map fun text => f text ++ "\n")).toList =
      (texts.map fun text => (f text).toList).flatMap (· ++ ['\n']) := by
  induction texts with
  | nil => rfl
  | cons text rest ih =>
    rw [List.map_cons, String.join_cons, String.toList_append, ih, List.map_cons, List.flatMap_cons,
      String.toList_append]
    rfl

/-- An error that begins at a character is reported with the line and the column of that. -/
theorem reportOf_of_place (h : file.snapshot = .of file.source)
    (hplace : place ≤ file.source.toList.length)
    (hbyte : error.startByte = Text.byteOffset file.source.toList place) :
    reportOf file error = file.displayName ++ ":" ++
      toString (Text.lineNumber file.source.toList place) ++ ":" ++
        toString (Text.columnNumber file.source.toList place) ++ ": " ++ error.message := by
  obtain ⟨hline, hcolumn⟩ := position_of_place h hplace hbyte
  rw [reportOf, hline, hcolumn]

/-- The report of an error of a loaded file is printed on a line of its own, as it is where the
console leaves its parts alone. -/
theorem run_parse_of_mem (host : Host) (batches : List Batch) (least : Level)
    (hc : Config.ofEnvironment environment = .ok config)
    (he : s.extend config .empty roots host.pool = (s', .ok (table, ids)))
    (hg : ∀ file ∈ s'.recordsOf table, s.grammar.Covers file.source)
    (hf : file ∈ s'.recordsOf table) (hp : file.parse s.grammar = some parsed)
    (herror : error ∈ parsed.errors) :
    let report := run environment host batches s (.parse roots)
    .literal (reportOf file error) ∈ report.entries ∧
      (Presentable file.displayName.toList →
        host.terminal.codes.lookup (toString (lineOf file error)) = none →
        Printable error.message.toList →
        host.terminal.codes.shownFor error.message = error.message →
          (reportOf file error).toList ∈
            (report.outcome host.terminal least).output.toList.splitOn '\n') := by
  intro report
  have hreport : report = _ :=
    run_parse_of_records host batches hc he (List.ne_nil_of_mem hf) hg
  have hmem : reportOf file error ∈ (byId s' table).flatMap (reportsOf s.grammar) := by
    refine List.mem_flatMap.mpr ⟨file, mem_byId.mpr hf, ?_⟩
    rw [reportsOf, hp]
    exact List.mem_map_of_mem herror
  refine ⟨?_, fun hn hl hm hcodes => ?_⟩
  · rw [hreport]
    exact List.mem_append_left _ (List.mem_map_of_mem hmem)
  · have hprint : Console.Printable (reportOf file error).toList :=
      printable_reportOf hn.printable hm
    have hnewline : '\n' ∉ (reportOf file error).toList := hprint.not_mem (by decide +kernel)
    obtain ⟨houtput, -, -⟩ := outcome_of_reports host.terminal s' least
      ((byId s' table).flatMap (reportsOf s.grammar)) (byId s' table).length
      (if (byId s' table).flatMap (reportsOf s.grammar) = [] then 0 else 1)
    rw [hreport, houtput, String.toList_append, toList_join_lines]
    refine mem_splitOn_flatMap (List.mem_map.mpr ⟨_, hmem, ?_⟩) hnewline _
    rw [shown_reportOf hn hl hm hcodes]

/-! ## Commands -/

/-- A file that a load takes is located with the line and the column that counting the characters of
its text gives, and its errors are reported with them. Locating succeeds exactly up to the end of
the text. What is handed to the console is printed as it is, if it is printable and no short code is
in it. -/
theorem run_of_positions (host : Host) (batches : List Batch) (least : Level)
    (hc : Config.ofEnvironment environment = .ok config) (ha : s.Accepts config path text) :
    let chars := text.toList
    let codes := host.terminal.codes
    let position (place : ℕ) := path.text ++ ":" ++ toString (Text.lineNumber chars place) ++ ":" ++
      toString (Text.columnNumber chars place)
    let bytes (place : ℕ) := bytesLine (Text.byteOffset chars (Text.lineBegin chars place))
      (Text.byteOffset chars (Text.lineEnd chars place))
    let line (place : ℕ) := String.ofList (((chars.take (Text.lineEnd chars place)).drop
      (Text.lineBegin chars place)).rdropWhile (· ∈ ['\r', '\n']))
    let report (command : Command) := run environment host batches s command
    let printed (command : Command) := ((report command).outcome host.terminal least).output
    (∀ place ≤ chars.length,
      let command := .locate path (Text.byteOffset chars place)
      (report command).entries =
          [.literal (position place), .marked (bytes place), .literal (line place)] ∧
        (Presentable path.text.toList →
          codes.lookup (toString (Text.lineNumber chars place)) = none →
          cells (bytes place).toList ≤ host.terminal.width →
          Printable (line place).toList → codes.shownFor (line place) = line place →
            printed command =
              position place ++ "\n" ++ (bytes place ++ "\n" ++ (line place ++ "\n")))) ∧
    (∀ offset,
      let outcome := (report (.locate path offset)).outcome host.terminal least
      outcome.crash ≠ some .noLine ∧
        (offset ≤ text.utf8ByteSize → outcome.exitCode = 0 ∧ outcome.crash = none) ∧
        (text.utf8ByteSize < offset → outcome.exitCode = 1)) ∧
    ∀ roots s' table ids, s.extend config .empty roots host.pool = (s', .ok (table, ids)) →
      (∀ file ∈ s'.recordsOf table, s.grammar.Covers file.source) →
      ∀ file ∈ s'.recordsOf table, file.path = some path →
        file.source = text ∧ ∀ parsed, file.parse s.grammar = some parsed →
          ∀ error ∈ parsed.errors, ∀ place ≤ chars.length,
            error.startByte = Text.byteOffset chars place →
              .literal (position place ++ ": " ++ error.message) ∈
                  (report (.parse roots)).entries ∧
                (Presentable path.text.toList →
                  codes.lookup (toString (Text.lineNumber chars place)) = none →
                  Printable error.message.toList →
                  codes.shownFor error.message = error.message →
                    (position place ++ ": " ++ error.message).toList ∈
                      (printed (.parse roots)).toList.splitOn '\n') := by
  intro chars codes position bytes line report printed
  obtain ⟨s', table, hr, hlocate⟩ := run_locate_of_accepts host hc ha
  have hsnapshot : (SourceFile.ofDisk s.counter.next text path).snapshot = .of text := rfl
  refine ⟨fun place hp => ?_, fun offset => ?_, ?_⟩
  · obtain ⟨location, hlocating, hline, hcolumn, hrange, htext⟩ :=
      exists_location hr hsnapshot hp
    have hreport : report (.locate path (Text.byteOffset chars place)) = _ :=
      (hlocate batches _).trans hlocating
    have hnumber : toString location.line = toString (Text.lineNumber chars place) := by
      rw [hline]
      rfl
    refine ⟨(congrArg Report.entries hreport).trans ?_, fun hn hl hw ht hcodes => ?_⟩
    · rw [Report.done, locationEntries, hnumber, hcolumn, hrange, htext]
      rfl
    · have houtput := output_of_location s' least hline hn hl (by rw [hrange]; exact hw)
        (by rw [htext]; exact ht) (by rw [htext]; exact hcodes)
      rw [hcolumn, hrange, htext] at houtput
      rw [← houtput]
      exact congrArg (fun report => (report.outcome host.terminal least).output) hreport
  · simp only [report, hlocate]
    exact outcome_of_locating hr rfl offset least
  · intro roots s' table ids he hg file hf hpath
    obtain ⟨id, other, source, hread, rfl⟩ := Session.exists_ofDisk_of_extend he hf
    obtain rfl : other = path := Option.some.inj hpath
    obtain rfl : source = text := Except.ok.inj (hread.symm.trans ha.readSource)
    refine ⟨rfl, fun parsed hp error herror place hplace hbyte => ?_⟩
    have hreport := reportOf_of_place
      (rfl : (SourceFile.ofDisk id source other).snapshot = .of source) hplace hbyte
    have hline := (position_of_place
      (rfl : (SourceFile.ofDisk id source other).snapshot = .of source) hplace hbyte).1
    have hparse := run_parse_of_mem host batches least hc he hg hf hp herror
    rw [hreport, hline] at hparse
    exact hparse

/-- A text of two lines. The first ends with a carriage return, the second has a character of two
bytes. -/
def accented : String := "a\r\né;"

/-- A tree of the text, with an error at the last character. -/
def accentedTree : Tree :=
  ParsedFile.onLine "program" 0 6 false true [ParsedFile.onLine "ERROR" 5 6 false true []]

def accentedFile : Session :=
  .start (FileSystem.empty.applyAll [.write ⟨.here, ["a.js"]⟩ (Utf8.encode accented)]).1
    [(accented, accentedTree)]

theorem run_of_accentedFile :
    let path : Path := ⟨.here, ["a.js"]⟩
    let terminal := Host.usual.terminal
    let report (command : Command) := command.run [] .usual [] accentedFile
    (report (.locate path 5)).entries =
        [.literal "a.js:2:2", .marked "line bytes: 3..6", .literal "é;"] ∧
      ((report (.locate path 5)).outcome terminal .error).output =
        "a.js:2:2\nline bytes: 3..6\né;\n" ∧
      (report (.locate path 1)).entries =
        [.literal "a.js:1:2", .marked "line bytes: 0..3", .literal "a"] ∧
      ((report (.locate path 4)).outcome terminal .error).exitCode = 0 ∧
      ((report (.locate path 6)).outcome terminal .error).exitCode = 0 ∧
      ((report (.locate path 7)).outcome terminal .error).exitCode = 1 ∧
      .literal "a.js:2:2: unexpected token" ∈ (report (.parse [path])).entries ∧
      "a.js:2:2: unexpected token".toList ∈
        ((report (.parse [path])).outcome terminal .error).output.toList.splitOn '\n' := by
  intro path terminal report
  generalize hs : (accentedFile.extend {} .empty [⟨.here, ["a.js"]⟩]).1 = s
  have he : (accentedFile.extend {} .empty [⟨.here, ["a.js"]⟩]).2 = .ok (⟨[(1, 0)]⟩, [1]) := by cbv
  have hr : s.recordsOf ⟨[(1, 0)]⟩ = [.ofDisk 1 accented ⟨.here, ["a.js"]⟩] := by
    subst hs
    cbv
  have hc : Config.ofEnvironment [] = .ok {} := by cbv
  have ha : accentedFile.Accepts {} ⟨.here, ["a.js"]⟩ accented :=
    ⟨by cbv, by decide, by decide, by cbv⟩
  have hfive : Text.byteOffset accented.toList 4 = 5 := by decide +kernel
  have hone : Text.byteOffset accented.toList 1 = 1 := by decide +kernel
  have hsize : accented.utf8ByteSize = 6 := by decide +kernel
  have hn : Presentable (⟨.here, ["a.js"]⟩ : Path).text.toList :=
    Console.presentable_of_ascii (by decide +kernel)
  obtain ⟨hlocate, houtcome, hparse⟩ := run_of_positions .usual [] .error hc ha
  obtain ⟨hsecond, houtput⟩ := hlocate 4 (by decide)
  obtain ⟨hfirst, -⟩ := hlocate 1 (by decide)
  have houtput := houtput hn (by decide +kernel) ((Text.cells_le _).trans (by decide +kernel))
    (by decide +kernel) (by decide +kernel)
  rw [hfive] at hsecond houtput
  rw [hone] at hfirst
  rw [hsize] at houtcome
  have hparse := hparse _ s _ _ (Prod.ext hs he)
  rw [hr] at hparse
  obtain ⟨-, hreport⟩ := hparse (List.forall_mem_singleton.mpr ⟨accentedTree, rfl, by decide⟩) _
    (List.mem_singleton_self _) rfl
  have herrors : (ParsedFile.ofScript 1 accentedTree).errors = [⟨1, "unexpected token", 5, 6⟩] := by
    cbv
  obtain ⟨hentry, hprinted⟩ := hreport _ rfl _ (herrors ▸ List.mem_singleton_self _) 4 (by decide)
    (by decide +kernel)
  have hprinted := hprinted hn (by decide +kernel) (Console.printable_of_ascii (by decide))
    (by decide +kernel)
  refine ⟨hsecond.trans (by decide +kernel), houtput.trans (by decide +kernel),
    hfirst.trans (by decide +kernel), ((houtcome 4).2.1 (by decide)).1,
    ((houtcome 6).2.1 (by decide)).1, (houtcome 7).2.2 (by decide), ?_, ?_⟩
  · convert hentry using 2
    decide +kernel
  · convert hprinted using 1
    decide +kernel

end Command

end SourceAtlas
