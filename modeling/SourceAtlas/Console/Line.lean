import SourceAtlas.Text.Blank
import SourceAtlas.Text.Cells

/-! # Lines on the console

Some control characters are dropped from a text, its lines end at newlines, and a tab goes to the
next multiple of eight cells. A line that has to fit a width is broken between words; a word that
is too wide is folded or cut off.
-/

namespace SourceAtlas.Console

open Text (isBlank cells Grapheme graphemes)

/-- Bell, backspace, vertical tab, form feed and carriage return. -/
def isDropped (c : Char) : Bool :=
  [0x07, 0x08, 0x0B, 0x0C, 0x0D].contains c.toNat

def tabSize : Nat := 8

/-- A text before a tab, filled up with a space or more to the next multiple of the tab size. -/
def toTabStop (text : List Char) : List Char :=
  let spaced := text ++ [' ']
  spaced ++ List.replicate ((tabSize - cells spaced % tabSize) % tabSize) ' '

def expandTabs (line : List Char) : List Char :=
  let parts := line.splitOn '\t'
  parts.dropLast.flatMap toTabStop ++ parts.getLast?.getD []

def shownLines (text : List Char) : List (List Char) :=
  ((text.filter (!isDropped ·)).splitOn '\n').map expandTabs

def shown (text : String) : String :=
  String.ofList (['\n'].intercalate (shownLines text.toList))

/-! ## Fitting a width -/

/-- Puts a character before words that still lack the start of their line. A word goes up to the
blank that precedes the next one. -/
def joinWord (c : Char) : List (List Char) → List (List Char)
  | (d :: word) :: rest =>
    if isBlank c && !isBlank d then [c] :: (d :: word) :: rest else (c :: d :: word) :: rest
  | rest => [c] :: rest

/-- The words of a line, each with the blanks after it. The first one has those at the start of the
line too; a line of blanks has no word. -/
def words (line : List Char) : List (List Char) :=
  match line.foldr joinWord [] with
  | [] => []
  | first :: rest =>
    if first.all isBlank then
      match rest with
      | [] => []
      | next :: rest => (first ++ next) :: rest
    else first :: rest

def blanksAtEnd (line : List Char) : Nat :=
  (line.reverse.takeWhile isBlank).length

def withoutBlanksAtEnd (line : List Char) : List Char :=
  line.take (line.length - blanksAtEnd line)

inductive Overflow where
  | folded
  | cutOff
deriving DecidableEq, Repr

/-- Puts graphemes into lines; `line` are the characters of the current one, backwards, and take up
`used` cells. -/
def foldGraphemes (width : Nat) (line : List Char) (used : Nat) :
    List Grapheme → List (List Char)
  | [] => [line.reverse]
  | g :: rest =>
    if width < used + g.cells then
      line.reverse :: foldGraphemes width g.chars.reverse g.cells rest
    else foldGraphemes width (g.chars.reverse ++ line) (used + g.cells) rest

def Overflow.parts (overflow : Overflow) (width : Nat) (word : List Char) : List (List Char) :=
  match overflow with
  | folded =>
    if width < cells (withoutBlanksAtEnd word) then foldGraphemes width [] 0 (graphemes word)
    else [word]
  | cutOff => [word]

/-- Lays out words, of which those in `line` are on the current line and take up `used` cells. -/
def layOut (overflow : Overflow) (width : Nat) (line : List Char) (used : Nat) :
    List (List Char) → List (List Char)
  | [] => [line]
  | word :: rest =>
    if used + cells (withoutBlanksAtEnd word) ≤ width then
      layOut overflow width (line ++ word) (used + cells word) rest
    else
      let parts := overflow.parts width word
      let last := parts.getLast?.getD []
      (if line.isEmpty then [] else [line]) ++ parts.dropLast ++
        layOut overflow width last (cells last) rest

/-- Drops blanks at the end of a line while it has more characters than fit. -/
def cropEnd (width : Nat) (line : List Char) : List Char :=
  line.take (line.length - min (blanksAtEnd line) (line.length - width))

/-- The start of a line that takes up a number of cells; a space stands for the half of a wide
grapheme. -/
def startOf : (width : Nat) → List Grapheme → List Char
  | 0, _ => []
  | width, [] => List.replicate width ' '
  | width, g :: rest =>
    if g.cells ≤ width then g.chars ++ startOf (width - g.cells) rest
    else List.replicate width ' '

/-- A line that is too wide cut down to a width; where words are cut off it ends in an ellipsis. -/
def Overflow.shorten (overflow : Overflow) (width : Nat) (line : List Char) : List Char :=
  if cells line ≤ width then line
  else match overflow with
    | folded => startOf width (graphemes line)
    | cutOff => startOf (width - 1) (graphemes line) ++ ['…']

def broken (overflow : Overflow) (width : Nat) (line : List Char) : List (List Char) :=
  match words line with
  | [] => [line]
  | words => layOut overflow width [] 0 words

def Overflow.fitted (overflow : Overflow) (width : Nat) (piece : List Char) : List Char :=
  overflow.shorten width (cropEnd width piece)

def fit (overflow : Overflow) (width : Nat) (line : List Char) : List (List Char) :=
  (broken overflow width line).map (overflow.fitted width)

/-- A text as it is shown in lines of a width, with words folded. -/
def shownFolded (width : Nat) (text : String) : String :=
  String.ofList (['\n'].intercalate ((shownLines text.toList).flatMap (fit .folded width)))

end SourceAtlas.Console
