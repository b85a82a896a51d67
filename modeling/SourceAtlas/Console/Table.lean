import SourceAtlas.Console.Cell

/-! # Tables

A table has a head with heavy rules and columns as wide as their widest cell; where that is too much
for the console, the widest columns give way. A console on which a column would lose its last cell is
left out.
-/

namespace SourceAtlas.Console

open Markup (MarkupError)

/-- The number of cells of a line, and the short codes that are replaced. -/
structure Terminal where
  width : Nat
  codes : Codes
deriving DecidableEq, Repr

structure Border where
  left : Char
  fill : Char
  between : Char
  right : Char
deriving DecidableEq, Repr

def topBorder : Border := ⟨'┏', '━', '┳', '┓'⟩
def headBorder : Border := ⟨'┃', ' ', '┃', '┃'⟩
def headRule : Border := ⟨'┡', '━', '╇', '┩'⟩
def rowBorder : Border := ⟨'│', ' ', '│', '│'⟩
def bottomBorder : Border := ⟨'└', '─', '┴', '┘'⟩

def Border.line (border : Border) (columns : List (List Char)) : List Char :=
  let padded := columns.map fun text => border.fill :: text ++ [border.fill]
  border.left :: [border.between].intercalate padded ++ [border.right]

def rowLines (border : Border) (widths : List Nat) (row : List Cell) : List (List Char) :=
  let columns := List.zipWith (fun width (cell : Cell) => cell.lines width) widths row
  let height := (columns.map List.length).foldl max 1
  (List.range height).map fun i =>
    border.line (List.zipWith (fun width lines => lines[i]?.getD (List.replicate width ' '))
      widths columns)

/-- The width of each column: that of its widest cell. -/
def cellWidths (rows : List (List Cell)) : List Nat :=
  rows.foldl (fun widths row => List.zipWith max widths (row.map Cell.width))
    (List.replicate (rows.headD []).length 0)

def lineWidth (widths : List Nat) : Nat :=
  widths.foldl (fun total width => total + width + 3) 1

/-- The number that is nearest to a quotient, or the even one of the two that are. -/
def nearest (a b : Nat) : Nat :=
  if 2 * (a % b) < b || (2 * (a % b) == b && a / b % 2 == 0) then a / b else a / b + 1

/-- Takes an excess from the `count` columns of the greatest width, no more than `most` from each. -/
def narrow (widest most : Nat) : (excess count : Nat) → List Nat → List Nat
  | _, _, [] => []
  | excess, count, width :: rest =>
    if width = widest then
      let share := min most (nearest excess count)
      (width - share) :: narrow widest most (excess - share) (count - 1) rest
    else width :: narrow widest most excess count rest

def total (widths : List Nat) : Nat :=
  widths.foldl (· + ·) 0

/-- The widths of columns when the widest have given way, at most until they are as wide as the
next. -/
def narrowed (room : Nat) (widths : List Nat) : List Nat :=
  let widest := widths.foldl max 0
  let next := (widths.filter (· ≠ widest)).foldl max 0
  let excess := total widths - room
  narrow widest (min excess (widest - next)) excess (widths.count widest) widths

/-- The widths of columns that have some room together. -/
def collapse (room : Nat) (widths : List Nat) : List Nat :=
  if total (narrowed room widths) < total widths then collapse room (narrowed room widths)
  else widths
termination_by total widths

def columnWidths (width : Nat) (rows : List (List Cell)) : List Nat :=
  let widths := cellWidths rows
  let room := width - (widths.length + 1)
  (collapse room (widths.map fun cells => min (cells + 2) room)).map (· - 2)

def tableLines (width : Nat) (header : List Cell) (rows : List (List Cell)) : List (List Char) :=
  let widths := columnWidths width (header :: rows)
  let rule (border : Border) :=
    border.line (widths.map fun width => List.replicate width border.fill)
  rule topBorder :: rowLines headBorder widths header ++ rule headRule ::
    rows.flatMap (rowLines rowBorder widths) ++ [rule bottomBorder]

/-- The text of a table, unless something is wrong with the markup of its cells; the styles of any
cell are looked up only when all markup is read. -/
def renderTable (terminal : Terminal) (header : List String) (rows : List (List String)) :
    Except MarkupError String := do
  let header ← header.mapM (Markup.read terminal.codes)
  let rows ← rows.mapM (·.mapM (Markup.read terminal.codes))
  let header ← header.mapM Cell.ofMarked
  let rows ← rows.mapM (·.mapM Cell.ofMarked)
  return String.ofList ((tableLines terminal.width header rows).flatMap (· ++ ['\n']))

end SourceAtlas.Console
