import Mathlib
import SourceAtlas.Command.Run
import SourceAtlas.Proofs.Console.Rows
import SourceAtlas.Proofs.Console.Styled
import SourceAtlas.Proofs.Watcher.Stream

/-! # Names on the console

The listing of files, the message that an offset is past the end of a file and the line that says
what is watched are markup with a name in it. A plain name is shown in them as it is, if the line
that it is on fits the console; what is not literal is taken for markup.
-/

namespace SourceAtlas.Command

open Batch (failures taken)
open Console (Codes Plain Presentable Fits Terminal cellOf cellWidths columnWidths lineWidth
  rowBorder)
open Markup (Bare Literal)
open Text (cells isBlank)

variable {environment : Config.Environment} {config : Config} {host : Host}
  {terminal : Terminal} {codes : Codes} {batches : List Batch}
  {s s' : Session} {paths : List Path} {table : Table} {ids : List Int} {file : SourceFile}
  {least : Level} {name text : String}

/-! ## Plain texts -/

theorem plain_of_bare (hp : Presentable text.toList) (hb : Bare text.toList) : Plain text :=
  ⟨hp, Markup.isLiteral_of_bare hb⟩

theorem presentable_bare_of_digits (h : ∀ c ∈ text.toList, c.isDigit ∨ c = '-') :
    Presentable text.toList ∧ Bare text.toList := by
  have hcode : ∀ c ∈ text.toList, 45 ≤ c.toNat ∧ c.toNat ≤ 57 := by
    intro c hc
    rcases h c hc with hd | rfl
    · exact (Text.toNat_of_isDigit hd).imp_left (le_trans (by decide))
    · decide
  have hne : ∀ c ∈ text.toList, ∀ d : Char, 57 < d.toNat → c ≠ d := by
    rintro c hc d hd rfl
    exact absurd (hcode c hc).2 (Nat.not_le_of_lt hd)
  constructor
  · intro c hc
    have hbounds := hcode c hc
    exact ⟨Text.isPrintable_of_ascii (by omega) (by omega), hne c hc ':' (by decide)⟩
  · exact fun c hc => ⟨hne c hc '[' (by decide), hne c hc '\\' (by decide), hne c hc ']' (by decide)⟩

theorem presentable_bare_nat (n : ℕ) : Presentable (toString n).toList ∧ Bare (toString n).toList :=
  presentable_bare_of_digits fun _ hc => Or.inl (Text.isDigit_of_mem_toString hc)

theorem plain_nat (n : ℕ) : Plain (toString n) :=
  plain_of_bare (presentable_bare_nat n).1 (presentable_bare_nat n).2

theorem plain_int (n : ℤ) : Plain (toString n) := by
  suffices h : ∀ c ∈ (toString n).toList, c.isDigit ∨ c = '-' from
    plain_of_bare (presentable_bare_of_digits h).1 (presentable_bare_of_digits h).2
  intro c hc
  cases n with
  | ofNat n => exact Or.inl (Text.isDigit_of_mem_toString (n := n) hc)
  | negSucc n =>
    have hc : c ∈ ("-" ++ toString (n + 1)).toList := hc
    rw [String.toList_append, List.mem_append] at hc
    rcases hc with hc | hc
    · exact Or.inr (by simpa using hc)
    · exact Or.inl (Text.isDigit_of_mem_toString hc)

theorem plain_kind (kind : FileKind) : Plain kind.text := by
  cases kind <;> exact plain_of_bare (Console.presentable_of_ascii (by decide)) (by decide)

theorem plain_row (h : Plain file.displayName) : ∀ text ∈ row file, Plain text := by
  simp only [row, List.forall_mem_cons, List.not_mem_nil, false_implies, implies_true, and_true]
  exact ⟨plain_int _, h, plain_kind _, plain_nat _, plain_nat _⟩

/-! ## Listing -/

def headings : List String := ["id", "name", "kind", "lines", "bytes"]

def cellRows (codes : Codes) (s : Session) (table : Table) : List (List Console.Cell) :=
  ((byId s table).map row).map (·.map (cellOf codes))

def listingCells (codes : Codes) (s : Session) (table : Table) : List (List Console.Cell) :=
  headings.map (cellOf codes) :: cellRows codes s table

theorem perm_byId (s : Session) (table : Table) : (byId s table).Perm (s.recordsOf table) :=
  List.mergeSort_perm _ _

theorem mem_byId : file ∈ byId s table ↔ file ∈ s.recordsOf table :=
  (perm_byId s table).mem_iff

theorem mem_cellRows (hf : file ∈ s.recordsOf table) :
    (row file).map (cellOf codes) ∈ cellRows codes s table :=
  List.mem_map_of_mem (List.mem_map_of_mem (mem_byId.mpr hf))

theorem exists_render_row (h : ∃ shown, Markup.render codes file.displayName = .ok shown) :
    ∀ text ∈ row file, ∃ shown, Markup.render codes text = .ok shown := by
  have hplain : ∀ {text}, Plain text → ∃ shown, Markup.render codes text = .ok shown :=
    fun hp => ⟨_, Markup.render_of_literal hp.literal⟩
  simp only [row, List.forall_mem_cons, List.not_mem_nil, false_implies, implies_true, and_true]
  exact ⟨hplain (plain_int _), h, hplain (plain_kind _), hplain (plain_nat _), hplain (plain_nat _)⟩

theorem listing_of_readable (least : Level) (h : ∀ file ∈ s.recordsOf table,
      ∃ shown, Markup.render terminal.codes file.displayName = .ok shown) :
    ∃ rest, (listing s table).outcome terminal least =
      ⟨0, String.ofList ((Console.tableLines terminal.width (headings.map (cellOf terminal.codes))
        (cellRows terminal.codes s table)).flatMap (· ++ ['\n'])) ++ rest,
        s.log.filter fun event => least.number ≤ event.level.number, [], none⟩ := by
  have hheadings : ∀ text ∈ headings,
      ∃ shown, Markup.render terminal.codes text = .ok shown := by
    have hliteral : headings.all (Literal ·) := by decide +kernel
    exact fun text ht => ⟨_, Markup.render_of_literal (of_decide_eq_true
      (List.all_eq_true.mp hliteral text ht))⟩
  have hrows : ∀ texts ∈ (byId s table).map row, ∀ text ∈ texts,
      ∃ shown, Markup.render terminal.codes text = .ok shown := by
    intro texts ht
    obtain ⟨file, hf, rfl⟩ := List.mem_map.mp ht
    exact exists_render_row (h file (mem_byId.mp hf))
  obtain ⟨count, hcount⟩ : ∃ shown,
      Markup.render terminal.codes ("(" ++ toString table.size ++ " files)") = .ok shown := by
    refine ⟨_, Markup.render_of_literal (Markup.isLiteral_of_bare ?_)⟩
    simp only [String.toList_append, Markup.bare_append_iff]
    exact ⟨⟨by decide, (presentable_bare_nat _).2⟩, by decide⟩
  refine ⟨Console.shownFolded terminal.width count ++ "\n", ?_⟩
  have htable := Console.renderTable_of_readable hheadings hrows
  simp only [headings] at htable
  simp only [listing, Report.done, Report.outcome, Console.renderAll, Console.Entry.render, htable,
    hcount, Except.map]
  simp [cellRows, headings]

theorem mem_splitOn_flatMap {line : List Char} {lines : List (List Char)} (h : line ∈ lines)
    (hn : '\n' ∉ line) (rest : List Char) :
    line ∈ (lines.flatMap (· ++ ['\n']) ++ rest).splitOn '\n' := by
  induction lines with
  | nil => cases h
  | cons first lines ih =>
    have hsplit : ((first :: lines).flatMap (· ++ ['\n']) ++ rest).splitOn '\n' =
        first.splitOn '\n' ++ (lines.flatMap (· ++ ['\n']) ++ rest).splitOn '\n' := by
      rw [List.flatMap_cons, List.append_assoc, List.append_assoc, List.singleton_append]
      exact List.splitOnP_append_cons _ _ rfl
    rw [hsplit, List.mem_append]
    rcases List.mem_cons.mp h with rfl | h
    · exact Or.inl (by rw [List.splitOn_eq_singleton hn]; exact List.mem_singleton_self _)
    · exact Or.inr (ih h)

/-! ## Messages -/

theorem render_marked {markup shown : String}
    (h : Markup.render terminal.codes markup = .ok shown) (hp : Presentable shown.toList)
    (hw : cells shown.toList ≤ terminal.width) (hlast : shown.toList.getLast?.any isBlank = false) :
    (Console.Entry.marked markup).render terminal = .ok (shown ++ "\n") := by
  rw [Console.Entry.render, h, Except.map, Console.shownFolded_of_fits hp.printable hw hlast]

/-- A presentable text in a style, and one after it, are shown without the tags. -/
theorem render_styled {style : String} {body tail : List Char}
    (hs : style = "red" ∨ style = "green") (hb : Markup.isLiteral false body)
    (hlast : body.getLast? ≠ some '\\') (ht : Markup.isLiteral false tail)
    (hp : Presentable (body ++ tail))
    (h : text.toList =
      '[' :: style.toList ++ ']' :: body ++ '[' :: '/' :: style.toList ++ ']' :: tail) :
    Markup.render codes text = .ok (String.ofList (body ++ tail)) := by
  obtain ⟨hbody, htail⟩ := Console.presentable_append_iff.mp hp
  rw [Markup.render_styled hs hb hlast ht h, Codes.replace_of_not_mem hbody.colon_not_mem,
    Codes.replace_of_not_mem htail.colon_not_mem]

def pastEnd (offset : ℕ) (name : String) : String :=
  "Offset " ++ toString offset ++ " is past the end of " ++ name ++ "."

theorem render_pastEnd (offset : ℕ) (h : Plain name)
    (hw : cells (pastEnd offset name).toList ≤ terminal.width) :
    (Console.Entry.marked ("[red]Offset " ++ toString offset ++ " is past the end of " ++ name ++
      ".[/red]")).render terminal = .ok (pastEnd offset name ++ "\n") := by
  obtain ⟨hp, hb⟩ := presentable_bare_nat offset
  have hpresentable : Presentable (pastEnd offset name).toList := by
    simp only [pastEnd, String.toList_append, Console.presentable_append_iff]
    exact ⟨⟨⟨⟨Console.presentable_of_ascii (by decide), hp⟩,
      Console.presentable_of_ascii (by decide)⟩, h.presentable⟩,
      Console.presentable_of_ascii (by decide)⟩
  have hliteral : Markup.isLiteral false (pastEnd offset name).toList := by
    have hbefore : Bare ("Offset " ++ toString offset ++ " is past the end of ").toList := by
      simp only [String.toList_append, Markup.bare_append_iff]
      exact ⟨⟨by decide, hb⟩, by decide⟩
    rw [pastEnd, String.toList_append, String.toList_append, List.append_assoc,
      Markup.isLiteral_bare_append hbefore]
    exact Markup.isLiteral_append_bare h.literal (by decide)
  have hlast : (pastEnd offset name).toList.getLast? = some '.' := by
    rw [pastEnd, String.toList_append]
    exact List.getLast?_concat
  have hmarkup : ("[red]Offset " ++ toString offset ++ " is past the end of " ++ name ++
      ".[/red]").toList = '[' :: "red".toList ++ ']' :: (pastEnd offset name).toList ++
        '[' :: '/' :: "red".toList ++ ']' :: [] := by
    simp [pastEnd]
  refine render_marked ?_ hpresentable hw (by rw [hlast]; decide)
  rw [render_styled (Or.inl rfl) hliteral (by rw [hlast]; decide) rfl
    (by rwa [List.append_nil]) hmarkup, List.append_nil, String.ofList_toList]

def watchingLine (directory : Path) (count : ℕ) : String :=
  "Watching " ++ directory.text ++ " (" ++ toString count ++ " files)"

theorem render_banner {directory : Path} (count : ℕ) (h : Plain directory.text)
    (hw : cells (watchingLine directory count).toList ≤ terminal.width) :
    (banner directory count).render terminal = .ok (watchingLine directory count ++ "\n") := by
  obtain ⟨hp, hb⟩ := presentable_bare_nat count
  have hpresentable : Presentable (watchingLine directory count).toList := by
    simp only [watchingLine, String.toList_append, Console.presentable_append_iff]
    exact ⟨⟨⟨⟨Console.presentable_of_ascii (by decide), h.presentable⟩,
      Console.presentable_of_ascii (by decide)⟩, hp⟩, Console.presentable_of_ascii (by decide)⟩
  have hliteral : Markup.isLiteral false
      (" " ++ directory.text ++ (" (" ++ toString count ++ " files)")).toList := by
    have hafter : Bare (" (" ++ toString count ++ " files)").toList := by
      simp only [String.toList_append, Markup.bare_append_iff]
      exact ⟨⟨by decide, hb⟩, by decide⟩
    rw [String.toList_append, String.toList_append, List.append_assoc,
      Markup.isLiteral_bare_append (by decide)]
    exact Markup.isLiteral_append_bare h.literal hafter
  have hlast : (watchingLine directory count).toList.getLast? = some ')' := by
    rw [watchingLine, String.toList_append, List.getLast?_append]
    rfl
  have hmarkup : ("[green]Watching[/green] " ++ directory.text ++ " (" ++ toString count ++
      " files)").toList = '[' :: "green".toList ++ ']' :: "Watching".toList ++
        '[' :: '/' :: "green".toList ++ ']' ::
          (" " ++ directory.text ++ (" (" ++ toString count ++ " files)")).toList := by
    simp
  refine render_marked ?_ hpresentable hw (by rw [hlast]; decide)
  have hshown : "Watching".toList ++
      (" " ++ directory.text ++ (" (" ++ toString count ++ " files)")).toList =
        (watchingLine directory count).toList := by simp [watchingLine]
  rw [render_styled (Or.inr rfl) (by decide) (by decide) hliteral (hshown ▸ hpresentable) hmarkup,
    hshown, String.ofList_toList]

/-! ## Commands -/

theorem locating_of_pastEnd {rest : List SourceFile} {offset : ℕ}
    (hr : s.recordsOf table = file :: rest) (ho : file.lines.length < offset)
    (hp : Plain file.displayName)
    (hw : cells (pastEnd offset file.displayName).toList ≤ terminal.width) (least : Level) :
    (locating offset s table).outcome terminal least =
      ⟨1, pastEnd offset file.displayName ++ "\n",
        s.log.filter fun event => least.number ≤ event.level.number, [], none⟩ := by
  have hrender := render_pastEnd offset hp hw
  simp only [locating, hr, if_pos ho, Report.failed, Report.outcome, Console.renderAll, hrender]
  rw [String.append_empty]

def refreshingSetup (config : Config) (table : Table) (directory : Path) : Watcher.Setup where
  directory := directory
  extensions := config.extensions
  callback := fun _ paths s => s.refreshAll table paths

def waitedFor (s : Session) (config : Config) (table : Table) (directory : Path)
    (batches : List Batch) : Watcher.State :=
  let setup := refreshingSetup config table directory
  setup.wait (setup.start (.initial s batches))

theorem steady_refreshingSetup (config : Config) (table : Table) (directory : Path) :
    (refreshingSetup config table directory).Steady where
  leavesFiles _ _ s := Session.files_refreshEach s table _
  uninterrupted _ _ s := Session.refreshEach_uninterrupted s table _

theorem stopped_of_watch (s : Session) (config : Config) (table : Table) (directory : Path)
    (batches : List Batch) :
    let setup := refreshingSetup config table directory
    let waited := waitedFor s config table directory batches
    waited.phase = .ended (failures s.files (taken s.files batches)) ∧
      (setup.stop waited).opened = [directory] := by
  intro setup waited
  have hs := steady_refreshingSetup config table directory
  have hstreams := Watcher.streams_of_steady hs
    { setup.start (.initial s batches) with opened := [directory] } batches
  refine ⟨hstreams.phase_eq hs, ?_⟩
  have hstop : (setup.stop waited).opened = waited.opened := by
    unfold Watcher.Setup.stop
    split <;> rfl
  exact hstop.trans hstreams.opened_eq

/-- What a watch reports depends on how its stream has ended. -/
theorem watching_of_ended (config : Config) (batches : List Batch) {directory : Path}
    {line : String} (hd : directoryOf s.files paths = .ok directory)
    (hr : (banner directory table.size).render terminal = .ok line) :
    let first := banner directory table.size
    let waited := waitedFor s config table directory batches
    let stopped := ((refreshingSetup config table directory).stop waited).session
    (waited.phase.outcome = .ok () →
      watching terminal batches paths s config table =
        { Report.done stopped [first] with opened := [directory] }) ∧
    (waited.phase.outcome = .error .interrupted →
      watching terminal batches paths s config table =
        { Report.done stopped [first, .marked "Stopped."] with opened := [directory] }) ∧
    ∀ failure, failure ≠ .interrupted → waited.phase.outcome = .error failure →
      watching terminal batches paths s config table =
        { Report.crashed stopped [first] (.failure failure) with opened := [directory] } := by
  intro first waited stopped
  obtain ⟨-, hopened⟩ := stopped_of_watch s config table directory batches
  dsimp only [waitedFor, refreshingSetup] at hopened
  refine ⟨fun ho => ?_, fun ho => ?_, fun failure hf ho => ?_⟩
  all_goals
    dsimp only [waited, waitedFor, refreshingSetup] at ho
    simp only [watching, hd, hr, ho, hopened]
  · rfl
  · rfl
  · cases failure with
    | interrupted => exact absurd rfl hf
    | _ => rfl

/-- The outcome of a watch says what is watched, and ends with the stream. -/
theorem watching_of_plain (config : Config) (batches : List Batch) {directory : Path}
    (hd : directoryOf s.files paths = .ok directory)
    (hp : Plain directory.text)
    (hw : cells (watchingLine directory table.size).toList ≤ terminal.width) (least : Level) :
    let raised := (failures s.files (taken s.files batches)).head?
    let outcome := (watching terminal batches paths s config table).outcome terminal least
    outcome.output = watchingLine directory table.size ++ "\n" ++
        (if raised = some .interrupted then "Stopped.\n" else "") ∧
      outcome.opened = [directory] ∧
      outcome.crash = (raised.filter (· ≠ .interrupted)).map .failure ∧
      outcome.exitCode = if outcome.crash = none then 0 else 1 := by
  have hrender := render_banner table.size hp hw
  have hstopped : (Console.Entry.marked "Stopped.").render terminal = .ok "Stopped.\n" := by
    -- The line that says what is watched begins with a word of as many cells.
    have hwatching := Text.cells_append_le (by decide : Text.joiner ∉ "Watching".toList)
      (" " ++ directory.text ++ " (" ++ toString table.size ++ " files)").toList
    have hline : "Watching".toList ++
        (" " ++ directory.text ++ " (" ++ toString table.size ++ " files)").toList =
          (watchingLine directory table.size).toList := by simp [watchingLine]
    have hcells : cells "Stopped.".toList = cells "Watching".toList := by decide +kernel
    rw [hline] at hwatching
    exact render_marked (Markup.render_of_plain (by decide) (by decide))
      (Console.presentable_of_ascii (by decide)) (by omega) (by decide)
  obtain ⟨hphase, -⟩ := stopped_of_watch s config table directory batches
  have houtcome : ∀ (session : Session) (exitCode : ℕ) (crash : Option Crash),
      (⟨session, [banner directory table.size], exitCode, crash, [directory]⟩ :
        Report).outcome terminal least = ⟨exitCode, watchingLine directory table.size ++ "\n",
          session.log.filter fun event => least.number ≤ event.level.number, [directory], crash⟩ := by
    intro session exitCode crash
    simp only [Report.outcome, Console.renderAll, hrender, String.append_empty]
  obtain ⟨hdone, hinterrupted, hcrashed⟩ := watching_of_ended config batches hd hrender
  dsimp only
  rcases hfailures : failures s.files (taken s.files batches) with _ | ⟨failure, rest⟩
  · rw [hdone (by rw [hphase, hfailures]; rfl), Report.done, houtcome]
    simp
  rw [hfailures] at hphase
  by_cases hf : failure = .interrupted
  · subst hf
    rw [hinterrupted (by rw [hphase]; rfl)]
    simp [Report.done, Report.outcome, Console.renderAll, hrender, hstopped]
  · rw [hcrashed failure hf (by rw [hphase]; rfl), Report.crashed, houtcome]
    simp [hf]

theorem run_of_loaded {pool : Pool} (hc : Config.ofEnvironment environment = .ok config)
    (he : s.extend config .empty paths pool = (s', .ok (table, ids))) (hs : table.size ≠ 0)
    (next : Session → Config → Table → Report) :
    loading environment pool s paths next = next s' config table := by
  simp only [loading, hc, he, if_neg hs]

theorem fits_row {width : ℕ} (hf : file ∈ s.recordsOf table) (h : Plain file.displayName)
    (hw : lineWidth (cellWidths (listingCells codes s table)) ≤ width) :
    Fits (columnWidths width (listingCells codes s table)) (row file) := by
  have hlengths : ∀ cells ∈ listingCells codes s table, cells.length = 5 := by
    refine List.forall_mem_cons.mpr ⟨rfl, fun cells hc => ?_⟩
    obtain ⟨texts, ht, rfl⟩ := List.mem_map.mp hc
    obtain ⟨other, -, rfl⟩ := List.mem_map.mp ht
    rfl
  have hmem : (row file).map (cellOf codes) ∈ listingCells codes s table :=
    List.mem_cons_of_mem _ (mem_cellRows hf)
  rw [Console.columnWidths_of_fits hw]
  exact Console.fits_of_covers (plain_row h) (Console.covers_cellWidths hlengths hmem)

theorem mem_lines_listing (least : Level)
    (hr : ∀ file ∈ s.recordsOf table,
      ∃ shown, Markup.render terminal.codes file.displayName = .ok shown)
    (hf : file ∈ s.recordsOf table) (h : Plain file.displayName)
    (hw : Fits (columnWidths terminal.width (listingCells terminal.codes s table)) (row file)) :
    rowBorder.plainLine (columnWidths terminal.width (listingCells terminal.codes s table))
        (row file) ∈
      ((listing s table).outcome terminal least).output.toList.splitOn '\n' := by
  obtain ⟨rest, hlisting⟩ := listing_of_readable least hr
  have hcells : (row file).map (cellOf terminal.codes) ∈ cellRows terminal.codes s table :=
    mem_cellRows hf
  have hline := Console.mem_tableLines hcells (by
    rw [← listingCells, Console.rowLines_of_fits (plain_row h) hw]
    exact List.mem_singleton_self _)
  rw [hlisting, String.toList_append, String.toList_ofList]
  exact mem_splitOn_flatMap hline (Console.newline_not_mem_plainLine (plain_row h) _) _

/-- When files have been loaded, the listing fails only of markup that is wrong in the name of a
file, and has a line with the name of each file that is plain and fits; the message that an offset
is past the end of a file and the line that says what is watched show a plain name that fits, and
neither fails of it. -/
theorem run_of_names (host : Host) (batches : List Batch) (least : Level)
    (hc : Config.ofEnvironment environment = .ok config)
    (he : s.extend config .empty paths host.pool = (s', .ok (table, ids))) (hs : table.size ≠ 0) :
    let outcome (command : Command) :=
      (command.run environment host batches s).outcome host.terminal least
    let width := host.terminal.width
    let cellsOf := listingCells host.terminal.codes s' table
    ((∀ file ∈ s'.recordsOf table,
        ∃ shown, Markup.render host.terminal.codes file.displayName = .ok shown) →
      (outcome (.files paths)).exitCode = 0 ∧ (outcome (.files paths)).crash = none ∧
      ∀ file ∈ s'.recordsOf table, Plain file.displayName →
        (lineWidth (cellWidths cellsOf) ≤ width → Fits (columnWidths width cellsOf) (row file)) ∧
        (Fits (columnWidths width cellsOf) (row file) →
          rowBorder.plainLine (columnWidths width cellsOf) (row file) ∈
            (outcome (.files paths)).output.toList.splitOn '\n')) ∧
    (∀ path offset file rest, paths = [path] → s.files.isFile path = .ok true →
      s'.recordsOf table = file :: rest → file.lines.length < offset → Plain file.displayName →
      cells (pastEnd offset file.displayName).toList ≤ width →
        (outcome (.locate path offset)).output = pastEnd offset file.displayName ++ "\n" ∧
        (outcome (.locate path offset)).exitCode = 1 ∧
        (outcome (.locate path offset)).crash = none) ∧
    ∀ directory, directoryOf s'.files paths = .ok directory → Plain directory.text →
      cells (watchingLine directory table.size).toList ≤ width →
        let raised := (failures s'.files (taken s'.files batches)).head?
        (outcome (.watch paths)).output = watchingLine directory table.size ++ "\n" ++
            (if raised = some .interrupted then "Stopped.\n" else "") ∧
          (outcome (.watch paths)).opened = [directory] ∧
          (outcome (.watch paths)).crash = (raised.filter (· ≠ .interrupted)).map .failure ∧
          (outcome (.watch paths)).exitCode =
            if (outcome (.watch paths)).crash = none then 0 else 1 := by
  intro outcome width cellsOf
  have hfiles : run environment host batches s (.files paths) = listing s' table :=
    run_of_loaded hc he hs _
  have hwatch : run environment host batches s (.watch paths) =
      watching host.terminal batches paths s' config table := run_of_loaded hc he hs _
  refine ⟨fun hreadable => ?_, fun path offset file rest hpaths hisFile hr ho hp hw => ?_,
    fun directory hd hp hw => ?_⟩
  · obtain ⟨rest, hlisting⟩ := listing_of_readable least hreadable
    have houtcome : outcome (.files paths) = (listing s' table).outcome host.terminal least := by
      simp only [outcome, hfiles]
    rw [houtcome]
    refine ⟨?_, ?_, fun file hf hp => ⟨fits_row hf hp, mem_lines_listing least hreadable hf hp⟩⟩
    · rw [hlisting]
    · rw [hlisting]
  · subst hpaths
    have hlocate : run environment host batches s (.locate path offset) =
        locating offset s' table := by
      rw [run, hisFile]
      exact run_of_loaded hc he hs _
    have hlocating := locating_of_pastEnd hr ho hp hw least
    rw [← hlocate] at hlocating
    exact ⟨congrArg Outcome.output hlocating, congrArg Outcome.exitCode hlocating,
      congrArg Outcome.crash hlocating⟩
  · have hwatching := watching_of_plain config batches hd hp hw least
    rw [← hwatch] at hwatching
    exact hwatching

/-- A session with a file in a directory. -/
def housed (name : String) : Session :=
  .start (FileSystem.empty.applyAll [.write ⟨.here, [name, "b].js"]⟩ [0x61]]).1 []

def housedFile (name : String) : SourceFile :=
  ⟨1, "b].js", some ⟨.here, [name, "b].js"]⟩, .script, .of "a"⟩

theorem run_of_bracketed :
    let path : Path := ⟨.here, ["[A]", "b].js"]⟩
    let host := Host.usual
    let outcome (command : Command) :=
      (command.run [] host [.failing .interrupted] (housed "[A]")).outcome host.terminal .error
    (outcome (.files [path])).exitCode = 0 ∧
      "│ 1  │ [A]/b].js │ script │ 1     │ 1     │".toList ∈
        (outcome (.files [path])).output.toList.splitOn '\n' ∧
      (outcome (.locate path 9)).exitCode = 1 ∧
      (outcome (.locate path 9)).output = "Offset 9 is past the end of [A]/b].js.\n" ∧
      (outcome (.watch [path])).exitCode = 0 ∧
      (outcome (.watch [path])).output = "Watching [A] (1 files)\nStopped.\n" := by
  intro path host outcome
  let table : Table := ⟨[(1, 0)]⟩
  let file := housedFile "[A]"
  generalize hs : ((housed "[A]").extend {} .empty [⟨.here, ["[A]", "b].js"]⟩]).1 = s
  have hc : Config.ofEnvironment [] = .ok {} := by cbv
  have he : ((housed "[A]").extend {} .empty [⟨.here, ["[A]", "b].js"]⟩]).2 =
      .ok (⟨[(1, 0)]⟩, [1]) := by cbv
  have hfile : (housed "[A]").files.isFile ⟨.here, ["[A]", "b].js"]⟩ = .ok true := by cbv
  have hrecords : s.recordsOf ⟨[(1, 0)]⟩ = [housedFile "[A]"] := by
    subst hs
    cbv
  have hdirectory : directoryOf s.files [⟨.here, ["[A]", "b].js"]⟩] = .ok ⟨.here, ["[A]"]⟩ := by
    subst hs
    cbv
  have hplain : Plain "[A]/b].js" := ⟨Console.presentable_of_ascii (by decide), by decide⟩
  have hrow : row (housedFile "[A]") = ["1", "[A]/b].js", "script", "1", "1"] := by cbv
  let codes := Host.usual.terminal.codes
  have hcells : listingCells codes s table = [headings.map (cellOf codes),
      ["1", "[A]/b].js", "script", "1", "1"].map (cellOf codes)] := by
    rw [listingCells, cellRows, byId, hrecords, List.mergeSort_singleton, List.map_singleton, hrow]
    rfl
  have hwidest : cellWidths (listingCells codes s table) = [2, 9, 6, 5, 5] := by
    rw [hcells]
    decide +kernel
  have hfits : lineWidth (cellWidths (listingCells codes s table)) ≤ Host.usual.terminal.width := by
    rw [hwidest]
    decide
  have hwidths : columnWidths Host.usual.terminal.width (listingCells codes s table) =
      [2, 9, 6, 5, 5] := (Console.columnWidths_of_fits hfits).trans hwidest
  have hline : rowBorder.plainLine [2, 9, 6, 5, 5] (row (housedFile "[A]")) =
      "│ 1  │ [A]/b].js │ script │ 1     │ 1     │".toList := by
    rw [hrow]
    decide +kernel
  obtain ⟨hlisting, hlocate, hwatch⟩ :=
    run_of_names .usual [.failing .interrupted] .error hc (Prod.ext hs he) (by decide)
  rw [hrecords] at hlisting
  obtain ⟨hcode, -, hlines⟩ := hlisting (List.forall_mem_singleton.mpr
    ⟨_, Markup.render_of_literal hplain.literal⟩)
  obtain ⟨hall, hmem⟩ := hlines file (List.mem_singleton_self _) hplain
  have hmem := hmem (hall hfits)
  rw [hwidths, hline] at hmem
  obtain ⟨hmessage, hfailed, -⟩ := hlocate _ 9 _ _ rfl hfile hrecords (by decide) hplain
    ((Text.cells_le _).trans (by decide +kernel))
  obtain ⟨hbanner, -, hcrash, hstopped⟩ := hwatch _ hdirectory
    ⟨Console.presentable_of_ascii (by decide), by decide⟩ ((Text.cells_le _).trans (by decide))
  rw [hcrash] at hstopped
  exact ⟨hcode, hmem, hfailed, hmessage, hstopped, hbanner⟩

/-- A name that begins with a tag is shown without it, and a closing tag in a name, which closes
nothing, ends the listing. -/
theorem run_of_tags :
    let opening : Path := ⟨.here, ["[id]", "b].js"]⟩
    let closing : Path := ⟨.here, ["x[", "b].js"]⟩
    let terminal := Host.usual.terminal
    let located := (run [] .usual [] (housed "[id]") (.locate opening 9)).outcome terminal .error
    let listed := (run [] .usual [] (housed "x[") (.files [closing])).outcome terminal .error
    (Presentable opening.text.toList ∧ cells (pastEnd 9 opening.text).toList ≤ terminal.width ∧
      located.exitCode = 1 ∧ located.output = "Offset 9 is past the end of /b].js.\n") ∧
    Presentable closing.text.toList ∧ listed.exitCode = 1 ∧ listed.output = "" ∧
      listed.crash = some (.markup (.unmatched "/b" 1)) := by
  have hc : Config.ofEnvironment [] = .ok {} := by cbv
  have hs : (⟨[(1, 0)]⟩ : Table).size ≠ 0 := by decide
  have hopening : ((housed "[id]").extend {} .empty [⟨.here, ["[id]", "b].js"]⟩]).2 =
      .ok (⟨[(1, 0)]⟩, [1]) := by cbv
  have hclosing : ((housed "x[").extend {} .empty [⟨.here, ["x[", "b].js"]⟩]).2 =
      .ok (⟨[(1, 0)]⟩, [1]) := by cbv
  have hfile : (housed "[id]").files.isFile ⟨.here, ["[id]", "b].js"]⟩ = .ok true := by cbv
  have hrecords : ((housed "[id]").extend {} .empty [⟨.here, ["[id]", "b].js"]⟩]).1.recordsOf
      ⟨[(1, 0)]⟩ = [housedFile "[id]"] := by cbv
  have hrows : (byId ((housed "x[").extend {} .empty [⟨.here, ["x[", "b].js"]⟩]).1
      ⟨[(1, 0)]⟩).map row = [["1", "x[/b].js", "script", "1", "1"]] := by cbv
  have hmessage : Console.renderAll Host.usual.terminal [.marked ("[red]Offset " ++ toString 9 ++
      " is past the end of " ++ (housedFile "[id]").displayName ++ ".[/red]")] =
      ("Offset 9 is past the end of /b].js.\n", none) := by decide +kernel
  have htable : Console.renderAll Host.usual.terminal [.table headings [["1", "x[/b].js", "script", "1", "1"]],
      .marked ("(" ++ toString 1 ++ " files)")] = ("", some (.unmatched "/b" 1)) := by decide +kernel
  have hlocate : run [] .usual [] (housed "[id]") (.locate ⟨.here, ["[id]", "b].js"]⟩ 9) =
      .failed ((housed "[id]").extend {} .empty [⟨.here, ["[id]", "b].js"]⟩]).1
        [.marked ("[red]Offset " ++ toString 9 ++ " is past the end of " ++
          (housedFile "[id]").displayName ++ ".[/red]")] := by
    rw [run, hfile]
    refine (run_of_loaded hc (Prod.ext rfl hopening) hs _).trans ?_
    rw [locating, hrecords]
    exact if_pos (by decide)
  have hlist : run [] .usual [] (housed "x[") (.files [⟨.here, ["x[", "b].js"]⟩]) =
      .done ((housed "x[").extend {} .empty [⟨.here, ["x[", "b].js"]⟩]).1
        [.table headings [["1", "x[/b].js", "script", "1", "1"]],
          .marked ("(" ++ toString 1 ++ " files)")] := by
    rw [run]
    refine (run_of_loaded hc (Prod.ext rfl hclosing) hs _).trans ?_
    rw [listing, hrows]
    rfl
  intro opening closing terminal located listed
  refine ⟨⟨Console.presentable_of_ascii (by decide), (Text.cells_le _).trans (by decide +kernel),
    ?_, ?_⟩, Console.presentable_of_ascii (by decide), ?_, ?_, ?_⟩
  all_goals simp only [located, listed, opening, closing, terminal, hlocate, hlist, Report.outcome,
    Report.failed, Report.done, hmessage, htable]

end SourceAtlas.Command
