import SourceAtlas.Console.Line
import SourceAtlas.Console.Markup

/-! # Cells of tables

A cell is measured without its tabs, so that it may have to be broken to fit its own column. It is
laid out as one text, but drawn part by part: characters on two sides of a tag are no grapheme, and
so a line of it may take up fewer cells than were counted, or more.
-/

namespace SourceAtlas.Console

open Markup (MarkupError)
open Text (cells)

/-- The parts of a text between its tags, without dropped characters. -/
abbrev Cell := List (List Char)

/-! ## Drawing parts -/

def drawnCells (parts : List (List Char)) : Nat :=
  parts.foldl (fun total part => total + cells part) 0

/-- The parts of a line that begins at a place of a text, by the places of the tags. -/
def cutAt (start : Nat) (line : List Char) : (places : List Nat) → List (List Char)
  | [] => [line]
  | place :: rest => line.take (place - start) :: cutAt place (line.drop (place - start)) rest

/-- The places strictly inside a line that begins at a place of a text. -/
def inside (start length : Nat) (places : List Nat) : List Nat :=
  places.filter fun place => start < place && place < start + length

def addSpaces (count : Nat) : List (List Char) → List (List Char)
  | [] => [List.replicate count ' ']
  | [part] => [part ++ List.replicate count ' ']
  | part :: rest => part :: addSpaces count rest

def crop (width : Nat) : List (List Char) → List Char
  | [] => []
  | part :: rest =>
    if cells part < width then part ++ crop (width - cells part) rest
    else Overflow.folded.shorten width part

/-- A line that takes up a number of cells when it is drawn. Spaces are added for those that the
line lacks as one text, and then for those that it lacks in parts. -/
def drawn (width : Nat) (parts : List (List Char)) : List Char :=
  let spaced := addSpaces (width - cells parts.flatten) parts
  if drawnCells spaced ≤ width then
    spaced.flatten ++ List.replicate (width - drawnCells spaced) ' '
  else crop width spaced

namespace Cell

def ofMarked (marked : Markup.Marked) : Except MarkupError Cell :=
  marked.shown.map fun parts => parts.map (·.filter (!isDropped ·))

/-- The characters that end a line where widths are measured. -/
def endsLine (c : Char) : Bool :=
  [0x0A, 0x1C, 0x1D, 0x1E, 0x85, 0x2028, 0x2029].contains c.toNat

/-- The number of cells of the widest line; tabs count for nothing. -/
def width (cell : Cell) : Nat :=
  ((cell.flatten.splitOnP endsLine).map cells).foldl max 0

def places (start : Nat) : Cell → List Nat
  | [] => []
  | part :: rest => (start + part.length) :: places (start + part.length) rest

def drawnPieces (width : Nat) (places : List Nat) (start : Nat) :
    List (List Char) → List (List Char)
  | [] => []
  | piece :: rest =>
    let text := Overflow.cutOff.fitted width piece
    drawn width (cutAt start text (inside start text.length places)) ::
      drawnPieces width places (start + piece.length) rest

/-- The lines that stand for those of a text, of which the first begins at a place of it. -/
def drawnLines (width : Nat) (places : List Nat) (start : Nat) :
    List (List Char) → List (List Char)
  | [] => []
  | line :: rest =>
    let inner := (inside start line.length places).map fun place =>
      (expandTabs (line.take (place - start))).length
    drawnPieces width inner 0 (broken .cutOff width (expandTabs line)) ++
      drawnLines width places (start + line.length + 1) rest

def lines (cell : Cell) (width : Nat) : List (List Char) :=
  drawnLines width (cell.places 0) 0 (cell.flatten.splitOn '\n')

end Cell

end SourceAtlas.Console
