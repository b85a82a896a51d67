import Mathlib
import SourceAtlas.Proofs.Command.Positions
import SourceAtlas.Proofs.Session.Loading

/-! # Reports of syntax errors

Parsing prints one report for each error of the loaded files, and then how many there are. It does so
with all texts but the reports whose line has a number that is a short code: on such a line the number
is printed as that code says, and its colons are gone.
-/

namespace SourceAtlas

namespace Command

open Console (Codes Presentable Printable Terminal shown shownFolded)
open Text (cells)

variable {environment : Config.Environment} {config : Config} {terminal : Terminal} {codes : Codes}
  {file : SourceFile} {error : ParseError}

def nothingFound : String := "No files to lint were found."

theorem render_nothingFound (terminal : Terminal) :
    Console.renderAll terminal [.marked "[red]No files to lint were found.[/red]"] =
      (shownFolded terminal.width nothingFound ++ "\n", none) := by
  have hmarkup : "[red]No files to lint were found.[/red]".toList =
      '[' :: "red".toList ++ ']' :: nothingFound.toList ++ '[' :: '/' :: "red".toList ++ ']' :: [] := by
    decide +kernel
  have hrender : Markup.render terminal.codes "[red]No files to lint were found.[/red]" =
      .ok (String.ofList (nothingFound.toList ++ [])) :=
    render_styled (Or.inl rfl) (by decide) (by decide) rfl
      (Console.presentable_of_ascii (by decide +kernel)) hmarkup
  rw [List.append_nil, String.ofList_toList] at hrender
  simp only [Console.renderAll, Console.Entry.render, hrender, Except.map, String.append_empty]

/-- Of a report the number of its line is printed as a short code, if it is one. -/
theorem shown_reportOf_of_lookup {code : String} (hn : Presentable file.displayName.toList)
    (hl : codes.lookup (toString (lineOf file error)) = some code) (hp : Printable code.toList)
    (hm : Printable error.message.toList) (hc : codes.shownFor error.message = error.message) :
    shown (codes.shownFor (reportOf file error)) = file.displayName ++ code ++
      toString (columnOf file error) ++ ": " ++ error.message := by
  have hcode : codes.ofNumber (lineOf file error) = code := by
    rw [Codes.ofNumber, hl, Option.getD_some]
  rw [shownFor_reportOf hn.colon_not_mem hc, hcode]
  simp only [← String.append_assoc]
  refine Printable.shown_eq ?_
  simp only [String.toList_append, Console.printable_append_iff]
  exact ⟨⟨⟨⟨hn.printable, hp⟩, (presentable_bare_nat _).1.printable⟩, by decide +kernel⟩, hm⟩

/-- Parsing exits with 1 and reports no error if the environment gives no configuration, if loading
fails and if it finds no file. Otherwise it hands one report for each error of the loaded files to
the console, in the order of their ids, and then says how many errors there are; without errors it
says how many files there are, and exits with 0. A report is printed as it is if the number of its
line is no short code, and with the code if it is one. -/
theorem run_of_errors (environment : Config.Environment) (host : Host) (batches : List Batch)
    (s : Session) (roots : List Path) (least : Level) :
    let report := run environment host batches s (.parse roots)
    let outcome := report.outcome host.terminal least
    let width := host.terminal.width
    let codes := host.terminal.codes
    (∀ issues, Config.ofEnvironment environment = .error issues →
      outcome.exitCode = 1 ∧ report.entries = [.marked ("[red]Invalid configuration:[/red] " ++
        Markup.escape (issuesText environment issues))]) ∧
    ∀ config, Config.ofEnvironment environment = .ok config →
      (∀ s' failure, s.extend config .empty roots host.pool = (s', .error failure) →
        outcome.exitCode = 1 ∧ outcome.output = "" ∧ outcome.crash = some (.failure failure)) ∧
      ∀ s' table ids, s.extend config .empty roots host.pool = (s', .ok (table, ids)) →
        let files := byId s' table
        files.Perm (s'.recordsOf table) ∧ files.Pairwise (·.id < ·.id) ∧
        (files = [] → outcome.exitCode = 1 ∧
          outcome.output = shownFolded width nothingFound ++ "\n") ∧
        (files ≠ [] → (∀ file ∈ files, s.grammar.Covers file.source) →
          let reports := files.flatMap (reportsOf s.grammar)
          let last := summary reports.length files.length
          report.entries = reports.map .literal ++ [.marked (closing reports.length files.length)] ∧
            outcome.output =
              String.join (reports.map fun text => shown (codes.shownFor text) ++ "\n") ++
                (shownFolded width last ++ "\n") ∧
            (cells last.toList ≤ width → shownFolded width last = last) ∧
            outcome.exitCode = (if reports = [] then 0 else 1) ∧ outcome.crash = none ∧
            ∀ file ∈ files, ∀ error : ParseError,
              Presentable file.displayName.toList → Printable error.message.toList →
              codes.shownFor error.message = error.message →
                let number := toString (lineOf file error)
                (codes.lookup number = none →
                  shown (codes.shownFor (reportOf file error)) = reportOf file error) ∧
                ∀ code, codes.lookup number = some code → Printable code.toList →
                  shown (codes.shownFor (reportOf file error)) = file.displayName ++ code ++
                    toString (columnOf file error) ++ ": " ++ error.message) := by
  intro report outcome width codes
  have houtcome : outcome = report.outcome host.terminal least := rfl
  refine ⟨fun issues hc => ?invalid,
    fun config hc => ⟨fun s' failure he => ?failed, fun s' table ids he => ?loaded⟩⟩
  case invalid =>
    have hreport : report = .failed s [.marked ("[red]Invalid configuration:[/red] " ++
        Markup.escape (issuesText environment issues))] := by
      simp only [report, run, loading, hc]
    rw [houtcome, hreport]
    exact ⟨(outcome_of_failed host.terminal s least _).1, rfl⟩
  case failed =>
    have hreport : report = .crashed s' [] (.failure failure) := by
      simp only [report, run, loading, hc, he]
    rw [houtcome, hreport]
    exact ⟨rfl, rfl, rfl⟩
  case loaded =>
    intro files
    have hperm : files.Perm (s'.recordsOf table) := perm_byId s' table
    refine ⟨hperm, pairwise_byId (Session.nodup_recordsOf_extend he).1, fun hnil => ?_,
      fun hne hg => ?_⟩
    · have hrecords : s'.recordsOf table = [] := List.perm_nil.mp (hnil ▸ hperm).symm
      have hreport : report = _ := run_parse_of_empty host batches hc he hrecords
      rw [houtcome, hreport, Report.failed, Report.outcome]
      simp only [render_nothingFound, width, and_self]
    · intro reports last
      have hrecords : s'.recordsOf table ≠ [] := fun hn => hne (List.perm_nil.mp (hn ▸ hperm))
      have hreport : report = _ := run_parse_of_records host batches hc he hrecords
        fun file hf => hg file (hperm.mem_iff.mpr hf)
      obtain ⟨houtput, hcode, hcrash⟩ := outcome_of_reports host.terminal s' least reports
        files.length (if reports = [] then 0 else 1)
      rw [← hreport] at houtput hcode hcrash
      exact ⟨congrArg Report.entries hreport, houtput, shownFolded_summary, hcode, hcrash,
        fun file _ error hn hm hc => ⟨fun hl => shown_reportOf hn hl hm hc,
          fun code hl hp => shown_reportOf_of_lookup hn hl hp hm hc⟩⟩

/-- Three files: one with errors on its last line and past its end, one without errors, and one that
ends without a semicolon. -/
def faultyFiles : Session :=
  .start (FileSystem.empty.applyAll [.write ⟨.here, ["a.js"]⟩ (Utf8.encode "a\nb"),
    .write ⟨.here, ["b.js"]⟩ (Utf8.encode "ok"), .write ⟨.here, ["c.js"]⟩ (Utf8.encode "é")]).1
    [("a\nb", ParsedFile.onLine "program" 0 3 false true
        [ParsedFile.onLine "ERROR" 2 3 false true [], ParsedFile.onLine "ERROR" 9 9 false true []]),
      ("ok", ParsedFile.onLine "program" 0 2 false false []),
      ("é", ParsedFile.onLine "program" 0 2 false true [ParsedFile.onLine ";" 2 2 true true []])]

theorem run_of_faultyFiles :
    let outcome := (run [] .usual [] faultyFiles (.parse [⟨.here, ["a.js"]⟩, ⟨.here, ["b.js"]⟩,
      ⟨.here, ["c.js"]⟩])).outcome Host.usual.terminal .error
    outcome.output = "a.js:2:1: unexpected token\na.js:2:2: unexpected token\n" ++
        "c.js:1:2: expected `;`\n3 error(s)\n" ∧
      outcome.exitCode = 1 ∧ outcome.crash = none := by
  intro outcome
  generalize hs : (faultyFiles.extend {} .empty
    [⟨.here, ["a.js"]⟩, ⟨.here, ["b.js"]⟩, ⟨.here, ["c.js"]⟩]).1 = s
  have he : (faultyFiles.extend {} .empty
      [⟨.here, ["a.js"]⟩, ⟨.here, ["b.js"]⟩, ⟨.here, ["c.js"]⟩]).2 =
      .ok (⟨[(1, 0), (2, 1), (3, 2)]⟩, [1, 2, 3]) := by cbv
  have hr : byId s ⟨[(1, 0), (2, 1), (3, 2)]⟩ = [.ofDisk 1 "a\nb" ⟨.here, ["a.js"]⟩,
      .ofDisk 2 "ok" ⟨.here, ["b.js"]⟩, .ofDisk 3 "é" ⟨.here, ["c.js"]⟩] := by
    subst hs
    cbv
  have hc : Config.ofEnvironment [] = .ok {} := by cbv
  obtain ⟨-, hloaded⟩ := run_of_errors [] .usual [] faultyFiles
    [⟨.here, ["a.js"]⟩, ⟨.here, ["b.js"]⟩, ⟨.here, ["c.js"]⟩] .error
  obtain ⟨-, -, -, hloaded⟩ := (hloaded _ hc).2 _ _ _ (Prod.ext hs he)
  rw [hr] at hloaded
  have hcovers : ∀ file ∈ [SourceFile.ofDisk 1 "a\nb" ⟨.here, ["a.js"]⟩,
      .ofDisk 2 "ok" ⟨.here, ["b.js"]⟩, .ofDisk 3 "é" ⟨.here, ["c.js"]⟩],
      faultyFiles.grammar.Covers file.source := by
    simp only [List.forall_mem_cons, List.not_mem_nil, false_implies, implies_true, and_true]
    exact ⟨⟨_, rfl, by decide⟩, ⟨_, rfl, by decide⟩, ⟨_, rfl, by decide⟩⟩
  have hreports : [SourceFile.ofDisk 1 "a\nb" ⟨.here, ["a.js"]⟩,
      .ofDisk 2 "ok" ⟨.here, ["b.js"]⟩, .ofDisk 3 "é" ⟨.here, ["c.js"]⟩].flatMap
        (reportsOf faultyFiles.grammar) =
      ["a.js:2:1: unexpected token", "a.js:2:2: unexpected token", "c.js:1:2: expected `;`"] := by
    cbv
  obtain ⟨-, houtput, hshown, hcode, hcrash, -⟩ := hloaded (List.cons_ne_nil _ _) hcovers
  rw [hreports] at houtput hshown hcode
  rw [hshown (by decide +kernel)] at houtput
  exact ⟨houtput.trans (by decide +kernel), hcode, hcrash⟩

/-- A text with nothing but newlines before its hundredth line. -/
def hundredth : String :=
  String.ofList (List.replicate 99 '\n' ++ "    x".toList)

/-- A tree of the text, with an error on its last line. -/
def hundredthTree : Tree :=
  ParsedFile.onLine "program" 0 104 false true [ParsedFile.onLine "ERROR" 103 104 false true []]

def alone (bytes : Bytes) (trees : List (String × Tree)) : Session :=
  .start (FileSystem.empty.applyAll [.write ⟨.here, ["a.js"]⟩ bytes]).1 trees

theorem accepts_alone {bytes : Bytes} {text : String} (h : bytes = Utf8.encode text)
    (trees : List (String × Tree)) :
    (alone bytes trees).Accepts {} ⟨.here, ["a.js"]⟩ text where
  isFile := by cbv
  notIgnored := by decide
  reads := by decide
  readSource := by
    have hread : (alone bytes trees).files.read ⟨.here, ["a.js"]⟩ = .ok bytes := by cbv
    exact FileSystem.readSource_eq_ok_iff.mpr (h ▸ hread)

/-- The number of the hundredth line is a short code, and is printed as that. -/
theorem run_of_hundredth :
    let s := alone (Utf8.encode hundredth) [(hundredth, hundredthTree)]
    let report := run [] .usual [] s (.parse [⟨.here, ["a.js"]⟩])
    let outcome := report.outcome Host.usual.terminal .error
    report.entries = [.literal "a.js:100:5: unexpected token", .marked "[red]1 error(s)[/red]"] ∧
      outcome.output = "a.js💯5: unexpected token\n1 error(s)\n" ∧ outcome.exitCode = 1 := by
  intro s report outcome
  have hc : Config.ofEnvironment [] = .ok {} := by cbv
  have ha : s.Accepts {} ⟨.here, ["a.js"]⟩ hundredth := accepts_alone rfl _
  obtain ⟨s', table, ids, he, -, hr⟩ := ha.extend Host.usual.pool
  have hgrammar : s.grammar hundredth = some hundredthTree := List.lookup_cons_self
  have hcovers : ∀ file ∈ s'.recordsOf table, s.grammar.Covers file.source := by
    rw [hr]
    exact List.forall_mem_singleton.mpr ⟨_, hgrammar, by decide⟩
  have hfiles : byId s' table = [.ofDisk 1 hundredth ⟨.here, ["a.js"]⟩] := by
    rw [byId, hr, List.mergeSort_singleton]
    rfl
  have herrors : (ParsedFile.ofTree .script 1 hundredthTree).errors =
      [⟨1, "unexpected token", 103, 104⟩] := by cbv
  have hreports : (byId s' table).flatMap (reportsOf s.grammar) =
      ["a.js:100:5: unexpected token"] := by
    have hparse : (SourceFile.ofDisk 1 hundredth ⟨.here, ["a.js"]⟩).parse s.grammar =
        some (.ofTree .script 1 hundredthTree) := by
      rw [SourceFile.parse]
      exact congrArg (Option.map _) hgrammar
    rw [hfiles, List.flatMap_singleton, reportsOf, hparse]
    dsimp only
    rw [herrors]
    decide +kernel
  have hreport : report = _ := run_parse_of_records .usual [] hc he (by rw [hr]; simp) hcovers
  have hrender : Console.renderAll Host.usual.terminal [.literal "a.js:100:5: unexpected token",
      .marked "[red]1 error(s)[/red]"] = ("a.js💯5: unexpected token\n1 error(s)\n", none) := by
    decide +kernel
  have hclosing : closing 1 1 = "[red]1 error(s)[/red]" := by decide +kernel
  rw [hreports, hfiles, List.length_singleton, List.length_singleton, hclosing,
    if_neg (List.cons_ne_nil _ _)] at hreport
  refine ⟨congrArg Report.entries hreport, ?_⟩
  simp only [outcome, hreport, Report.outcome, List.map_singleton, List.singleton_append, hrender,
    and_self]

end Command

end SourceAtlas
