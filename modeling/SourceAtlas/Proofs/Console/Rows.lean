import Mathlib
import SourceAtlas.Console.Table
import SourceAtlas.Proofs.Console.Fitting
import SourceAtlas.Proofs.Console.Literal

/-! # Rows that show their texts

A row of plain texts that fit the columns of a table is one line, in which each text is followed by
spaces up to the width of its column. All rows of plain texts fit if the table fits the console.
-/

namespace SourceAtlas.Console

open Markup (Literal)
open Text (isBlank cells joiner)

/-- A text that the console shows as it is, if it is not too wide. -/
structure Plain (text : String) : Prop where
  presentable : Presentable text.toList
  literal : Literal text

variable {codes : Codes} {chars line : List Char} {text : String} {texts : List String} {width : ℕ}
  {widths : List ℕ} {border : Border} {header row : List Cell} {rows : List (List Cell)}

/-! ## Cells -/

def padded (width : ℕ) (chars : List Char) : List Char :=
  chars ++ List.replicate (width - cells chars) ' '

/-- Only spaces are dropped from the end of a printable line. -/
theorem exists_cropEnd (h : Printable line) (width : ℕ) :
    ∃ count, line = cropEnd width line ++ List.replicate count ' ' := by
  let count := min (blanksAtEnd line) (line.length - width)
  have hcount : count ≤ blanksAtEnd line := Nat.min_le_left _ _
  have hlength : count ≤ line.length := (Nat.min_le_right _ _).trans (Nat.sub_le _ _)
  have hend : line.drop (line.length - count) = List.replicate count ' ' := by
    refine List.eq_replicate_iff.mpr ⟨by rw [List.length_drop]; omega, fun c hc => ?_⟩
    have htake : c ∈ line.reverse.take count := by rwa [List.take_reverse, List.mem_reverse]
    have hblank : c ∈ line.reverse.takeWhile isBlank :=
      ((List.prefix_of_prefix_length_le (List.take_prefix _ _) (List.takeWhile_prefix _)
        (by rw [List.length_take]; exact (Nat.min_le_left _ _).trans hcount)).subset htake)
    exact Text.eq_space_of_isBlank (h c (List.mem_of_mem_drop hc)) (List.mem_takeWhile_imp hblank)
  exact ⟨count, by rw [← hend, cropEnd, List.take_append_drop]⟩

theorem joiner_not_mem_cropEnd (h : joiner ∉ line) : joiner ∉ cropEnd width line :=
  mt List.mem_of_mem_take h

theorem cells_cropEnd_le (h : joiner ∉ line) : cells (cropEnd width line) ≤ cells line :=
  Text.cells_take_le h _

theorem padded_cropEnd (h : Printable line) (hw : cells line ≤ width) :
    padded width (cropEnd width line) = padded width line := by
  obtain ⟨count, hc⟩ := exists_cropEnd h width
  have hj : joiner ∉ cropEnd width line := joiner_not_mem_cropEnd h.joiner_not_mem
  generalize cropEnd width line = start at hc hj ⊢
  subst hc
  rw [Text.cells_append_spaces hj] at hw
  rw [padded, padded, Text.cells_append_spaces hj, List.append_assoc,
    List.replicate_append_replicate]
  congr 2
  omega

theorem drawn_singleton (h : joiner ∉ chars) (hw : cells chars ≤ width) :
    drawn width [chars] = padded width chars := by
  have hcells : cells (padded width chars) = width := by
    rw [padded, Text.cells_append_spaces h]
    omega
  have hspaced : addSpaces (width - cells [chars].flatten) [chars] = [padded width chars] := by
    simp [addSpaces, padded]
  have hdrawn : drawnCells [padded width chars] = width := by simp [drawnCells, hcells]
  rw [drawn]
  simp only [hspaced, hdrawn, if_pos (le_refl width)]
  simp

namespace Cell

theorem lines_of_fits (h : Printable chars) (hw : cells chars ≤ width) :
    Cell.lines [chars] width = [padded width chars] := by
  have hj := h.joiner_not_mem
  have hinside : inside 0 chars.length [0 + chars.length] = [] := by simp [inside]
  have hcropped : cells (cropEnd width chars) ≤ width := (cells_cropEnd_le hj).trans hw
  -- A text with characters that take up no cells may lose spaces at its end, which drawing adds again.
  rw [Cell.lines, List.flatten_singleton, h.splitOn_eq, places, places, drawnLines, hinside,
    List.map_nil, h.expandTabs_eq, broken_of_fits hj hw, drawnPieces, drawnPieces, drawnLines,
    List.append_nil, Overflow.fitted, shorten_of_fits hcropped, ← padded_cropEnd h hw,
    ← drawn_singleton (joiner_not_mem_cropEnd hj) hcropped]
  rfl

theorem width_of_printable (h : Printable chars) : Cell.width [chars] = cells chars := by
  have hends : ∀ c ∈ chars, endsLine c = false := fun c hc =>
    Text.contains_toNat_of_isPrintable (h c hc) (by decide +kernel)
  rw [Cell.width, List.flatten_singleton, List.splitOnP_eq_singleton hends, List.map_singleton,
    List.foldl_cons, List.foldl_nil, Nat.zero_max]

end Cell

/-- The cell that a text makes; it is empty where the markup is wrong. -/
def cellOf (codes : Codes) (text : String) : Cell :=
  ((Markup.read codes text).bind Cell.ofMarked).toOption.getD []

theorem ofMarked_of_shown {marked : Markup.Marked} {parts : List (List Char)}
    (h : marked.shown = .ok parts) :
    Cell.ofMarked marked = .ok (parts.map (·.filter (!isDropped ·))) := by
  rw [Cell.ofMarked, h]
  rfl

theorem cellOf_plain (h : Plain text) : cellOf codes text = [text.toList] := by
  have hshown : (⟨[text.toList], []⟩ : Markup.Marked).shown = .ok [text.toList] := rfl
  rw [cellOf, Markup.read_of_literal h.literal,
    Codes.replace_of_not_mem h.presentable.colon_not_mem, Except.bind, ofMarked_of_shown hshown,
    List.map_singleton, h.presentable.printable.filter_isDropped]
  rfl

/-- A text that can be rendered makes a cell. -/
theorem exists_read_of_render {shown : String} (h : Markup.render codes text = .ok shown) :
    ∃ marked, Markup.read codes text = .ok marked ∧
      Cell.ofMarked marked = .ok (cellOf codes text) := by
  unfold Markup.render at h
  cases hm : Markup.read codes text with
  | error e =>
    rw [hm] at h
    cases h
  | ok marked =>
    rw [hm, Except.bind] at h
    cases hp : marked.shown with
    | error e =>
      rw [hp] at h
      cases h
    | ok parts =>
      refine ⟨marked, rfl, ?_⟩
      rw [cellOf, hm, Except.bind, ofMarked_of_shown hp]
      rfl

/-! ## Rows -/

def Fits (widths : List ℕ) (texts : List String) : Prop :=
  List.Forall₂ (fun width text => cells text.toList ≤ width) widths texts

def Border.plainLine (border : Border) (widths : List ℕ) (texts : List String) : List Char :=
  border.line (List.zipWith (fun width text => padded width text.toList) widths texts)

theorem columns_of_fits (hp : ∀ text ∈ texts, Plain text) (hf : Fits widths texts) :
    List.zipWith (fun width (cell : Cell) => cell.lines width) widths
      (texts.map (cellOf codes)) =
      (List.zipWith (fun width text => padded width text.toList) widths texts).map ([·]) := by
  induction hf with
  | nil => rfl
  | cons hw _ ih =>
    obtain ⟨htext, hrest⟩ := List.forall_mem_cons.mp hp
    rw [List.map_cons, List.zipWith_cons_cons, ih hrest, cellOf_plain htext,
      Cell.lines_of_fits htext.presentable.printable hw]
    rfl

theorem foldl_max_one (columns : List (List Char)) :
    ((columns.map ([·])).map List.length).foldl max 1 = 1 := by
  induction columns with
  | nil => rfl
  | cons column columns ih => exact ih

theorem firstLines_eq (f : ℕ → String → List Char) (widths : List ℕ) (texts : List String) :
    List.zipWith (fun width lines => lines[0]?.getD (List.replicate width ' ')) widths
      ((List.zipWith f widths texts).map ([·])) = List.zipWith f widths texts := by
  induction widths generalizing texts with
  | nil => rfl
  | cons width widths ih =>
    cases texts with
    | nil => rfl
    | cons text texts => exact congrArg (f width text :: ·) (ih texts)

theorem rowLines_of_fits (hp : ∀ text ∈ texts, Plain text) (hf : Fits widths texts) :
    rowLines border widths
      (texts.map (cellOf codes)) = [border.plainLine widths texts] := by
  rw [rowLines, columns_of_fits hp hf]
  simp only [foldl_max_one, List.range_one, List.map_singleton, firstLines_eq]
  rfl

theorem not_mem_intercalate {c : Char} {separator : List Char} {columns : List (List Char)}
    (hs : c ∉ separator) (h : ∀ column ∈ columns, c ∉ column) :
    c ∉ separator.intercalate columns := by
  induction columns with
  | nil => simp
  | cons first columns ih =>
    obtain ⟨hfirst, hrest⟩ := List.forall_mem_cons.mp h
    cases columns with
    | nil => simpa using hfirst
    | cons second columns =>
      rw [List.intercalate_cons_cons, List.mem_append, List.mem_append, not_or, not_or]
      exact ⟨⟨hfirst, hs⟩, ih hrest⟩

theorem newline_not_mem_padded (h : Printable chars) (width : ℕ) : '\n' ∉ padded width chars := by
  rw [padded, List.mem_append, not_or]
  exact ⟨h.not_mem (by decide +kernel), fun hm => by simpa using List.eq_of_mem_replicate hm⟩

theorem newline_not_mem_plainLine (hp : ∀ text ∈ texts, Plain text) (widths : List ℕ) :
    '\n' ∉ rowBorder.plainLine widths texts := by
  have hcolumns : ∀ column ∈ (List.zipWith (fun width text => padded width text.toList) widths
      texts).map fun text => rowBorder.fill :: text ++ [rowBorder.fill], '\n' ∉ column := by
    intro column hc
    obtain ⟨chars, hm, rfl⟩ := List.mem_map.mp hc
    rw [← List.map_uncurry_zip_eq_zipWith] at hm
    obtain ⟨⟨width, text⟩, hz, rfl⟩ := List.mem_map.mp hm
    have hn := newline_not_mem_padded (hp text (List.of_mem_zip hz).2).presentable.printable width
    simpa [rowBorder] using hn
  have hline := not_mem_intercalate (by decide : '\n' ∉ [rowBorder.between]) hcolumns
  simpa [Border.plainLine, Border.line, rowBorder] using hline

/-! ## Widths -/

theorem narrow_of_no_excess (widest count : ℕ) (widths : List ℕ) :
    narrow widest 0 0 count widths = widths := by
  induction widths generalizing count with
  | nil => rfl
  | cons width widths ih =>
    rw [narrow]
    simp only [Nat.zero_min, Nat.sub_zero, ih, ite_self]

theorem collapse_of_fits (h : total widths ≤ width) : collapse width widths = widths := by
  have hnarrowed : narrowed width widths = widths := by
    simp only [narrowed, Nat.sub_eq_zero_of_le h, Nat.zero_min, narrow_of_no_excess]
  rw [collapse, hnarrowed, if_neg (Nat.lt_irrefl _)]

theorem total_eq_sum (widths : List ℕ) : total widths = widths.sum :=
  List.sum_eq_foldl.symm

theorem lineWidth_eq (widths : List ℕ) :
    lineWidth widths = total (widths.map (· + 2)) + (widths.length + 1) := by
  have hfoldl : ∀ start, widths.foldl (fun sum width => sum + width + 3) start =
      start + (widths.map (· + 2)).sum + widths.length := by
    induction widths with
    | nil => simp
    | cons width widths ih =>
      intro start
      rw [List.foldl_cons, ih, List.map_cons, List.sum_cons, List.length_cons]
      omega
  rw [lineWidth, hfoldl, total_eq_sum]
  omega

theorem columnWidths_of_fits (h : lineWidth (cellWidths rows) ≤ width) :
    columnWidths width rows = cellWidths rows := by
  generalize hw : cellWidths rows = widths at h
  rw [lineWidth_eq] at h
  have hroom : total (widths.map (· + 2)) ≤ width - (widths.length + 1) := by omega
  have hmin : (widths.map fun cells => min (cells + 2) (width - (widths.length + 1))) =
      widths.map (· + 2) := by
    refine List.map_congr_left fun cells hc => Nat.min_eq_left (le_trans ?_ hroom)
    rw [total_eq_sum]
    exact List.single_le_sum (fun _ _ => Nat.zero_le _) _ (List.mem_map_of_mem hc)
  rw [columnWidths, hw]
  simp only [hmin, collapse_of_fits hroom, List.map_map, Function.comp_def, Nat.add_sub_cancel,
    List.map_id']

/-- Whether the cells of a row are no wider than the columns. -/
def Covers (widths : List ℕ) (row : List Cell) : Prop :=
  List.Forall₂ (fun width (cell : Cell) => cell.width ≤ width) widths row

theorem Covers.mono {wider : List ℕ} (h : Covers widths row)
    (hw : List.Forall₂ (· ≤ ·) widths wider) : Covers wider row := by
  induction hw generalizing row with
  | nil => exact h
  | cons hle _ ih =>
    cases h with
    | cons hcell hrest => exact .cons (hcell.trans hle) (ih hrest)

theorem forall₂_le_zipWith_max (h : row.length = widths.length) :
    List.Forall₂ (· ≤ ·) widths (List.zipWith max widths (row.map Cell.width)) := by
  induction widths generalizing row with
  | nil => exact .nil
  | cons width widths ih =>
    cases row with
    | nil => cases h
    | cons cell row => exact .cons (Nat.le_max_left _ _) (ih (Nat.succ.inj h))

theorem covers_zipWith_max (h : row.length = widths.length) :
    Covers (List.zipWith max widths (row.map Cell.width)) row := by
  induction widths generalizing row with
  | nil =>
    rw [List.length_eq_zero_iff.mp h]
    exact .nil
  | cons width widths ih =>
    cases row with
    | nil => cases h
    | cons cell row => exact .cons (Nat.le_max_right _ _) (ih (Nat.succ.inj h))

theorem covers_foldl (hl : ∀ row ∈ rows, row.length = widths.length) :
    let wider := rows.foldl (fun widths row => List.zipWith max widths (row.map Cell.width)) widths
    (∀ row, Covers widths row → Covers wider row) ∧ ∀ row ∈ rows, Covers wider row := by
  induction rows generalizing widths with
  | nil => exact ⟨fun _ => id, nofun⟩
  | cons row rows ih =>
    obtain ⟨hrow, hrows⟩ := List.forall_mem_cons.mp hl
    have hle := forall₂_le_zipWith_max hrow
    obtain ⟨hkept, hcovers⟩ := ih fun other ho => (hrows other ho).trans hle.length_eq
    exact ⟨fun other ho => hkept other (ho.mono hle),
      List.forall_mem_cons.mpr ⟨hkept row (covers_zipWith_max hrow), hcovers⟩⟩

theorem covers_cellWidths (hl : ∀ row ∈ rows, row.length = (rows.headD []).length)
    (hr : row ∈ rows) : Covers (cellWidths rows) row :=
  (covers_foldl (by simpa using hl)).2 row hr

theorem fits_of_covers (hp : ∀ text ∈ texts, Plain text) (h : Covers widths (texts.map (cellOf codes))) :
    Fits widths texts := by
  induction texts generalizing widths with
  | nil =>
    cases h
    exact .nil
  | cons text texts ih =>
    obtain ⟨htext, hrest⟩ := List.forall_mem_cons.mp hp
    cases h with
    | cons hw hws =>
      rw [cellOf_plain htext, Cell.width_of_printable htext.presentable.printable] at hw
      exact .cons hw (ih hrest hws)

/-! ## Tables -/

theorem mem_tableLines (hr : row ∈ rows)
    (hl : line ∈ rowLines rowBorder (columnWidths width (header :: rows)) row) :
    line ∈ tableLines width header rows := by
  have hm := List.mem_flatMap.mpr ⟨row, hr, hl⟩
  simp only [tableLines, List.mem_append, List.mem_cons]
  exact Or.inl (Or.inr (Or.inr hm))

theorem exists_mapM {α β γ ε : Type} {f : α → Except ε β} {g : β → Except ε γ} {h : α → γ}
    {xs : List α} (hx : ∀ x ∈ xs, ∃ y, f x = .ok y ∧ g y = .ok (h x)) :
    ∃ ys, xs.mapM f = .ok ys ∧ ys.mapM g = .ok (xs.map h) := by
  induction xs with
  | nil => exact ⟨[], rfl, rfl⟩
  | cons x xs ih =>
    obtain ⟨⟨y, hf, hg⟩, hrest⟩ := List.forall_mem_cons.mp hx
    obtain ⟨ys, hfs, hgs⟩ := ih hrest
    refine ⟨y :: ys, ?_, ?_⟩
    · rw [List.mapM_cons, hf, hfs]
      rfl
    · rw [List.mapM_cons, hg, hgs]
      rfl

theorem renderTable_of_readable {terminal : Terminal} {header : List String}
    {rows : List (List String)}
    (hh : ∀ text ∈ header, ∃ shown, Markup.render terminal.codes text = .ok shown)
    (hr : ∀ row ∈ rows, ∀ text ∈ row, ∃ shown, Markup.render terminal.codes text = .ok shown) :
    renderTable terminal header rows = .ok (String.ofList
      ((tableLines terminal.width (header.map (cellOf terminal.codes))
        (rows.map (·.map (cellOf terminal.codes)))).flatMap (· ++ ['\n']))) := by
  have hread : ∀ text, (∃ shown, Markup.render terminal.codes text = .ok shown) →
      ∃ marked, Markup.read terminal.codes text = .ok marked ∧
        Cell.ofMarked marked = .ok (cellOf terminal.codes text) :=
    fun text ⟨_, hshown⟩ => exists_read_of_render hshown
  obtain ⟨heads, hheads, hheader⟩ := exists_mapM fun text ht => hread text (hh text ht)
  obtain ⟨lines, hlines, hrows⟩ := exists_mapM fun row hrow =>
    exists_mapM fun text ht => hread text (hr row hrow text ht)
  simp only [renderTable, bind, Except.bind, hheads, hlines, hheader, hrows]
  rfl

end SourceAtlas.Console
