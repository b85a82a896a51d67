import SourceAtlas.Text.Utf8

/-! # Line starts

A line starts at offset zero and after every newline byte. The index of a text holds the starts
and the length of its bytes; it maps lines to offsets by position and offsets to lines by binary
search.
-/

namespace SourceAtlas

structure LineIndex where
  starts : Array Nat
  length : Nat
deriving DecidableEq, Repr

namespace LineIndex

def newline : UInt8 := 0x0A

/-- The starts that the bytes from `offset` on add: one after each newline, found by searching on
from the last one. -/
def startsFrom (offset : Nat) (bytes : Bytes) : List Nat :=
  match h : bytes.findIdx? (· == newline) with
  | none => []
  | some i => (offset + i + 1) :: startsFrom (offset + i + 1) (bytes.drop (i + 1))
termination_by bytes.length
decreasing_by
  have := (List.findIdx?_eq_some_iff_getElem.mp h).1
  simp only [List.length_drop]
  omega

def startsOf (bytes : Bytes) : List Nat :=
  0 :: startsFrom 0 bytes

def ofBytes (bytes : Bytes) : LineIndex :=
  ⟨(startsOf bytes).toArray, bytes.length⟩

def ofText (text : String) : LineIndex :=
  ofBytes (Utf8.encode text)

def lineCount (index : LineIndex) : Nat :=
  index.starts.size

/-- Where a line begins. One past the last line it is the end of the text, so that the last line
has a range too. -/
def lineStart (index : LineIndex) (line : Int) : Option Nat :=
  if line < 0 then none
  else if line.toNat < index.lineCount then index.starts[line.toNat]?
  else if line.toNat = index.lineCount then some index.length
  else none

/-- The number of starts up to `offset` among ascending starts, given that those before `low` are
among them and those from `high` on are not. -/
def countUpTo (starts : Array Nat) (offset : Int) (low high : Nat) (bound : high ≤ starts.size) :
    Nat :=
  if below : low < high then
    if offset < starts[(low + high) / 2] then
      countUpTo starts offset low ((low + high) / 2) (by omega)
    else countUpTo starts offset ((low + high) / 2 + 1) high bound
  else low
termination_by high - low

/-- The last line that starts at or before an offset; -1 for a negative offset. -/
def lineAt (index : LineIndex) (offset : Int) : Int :=
  countUpTo index.starts offset 0 index.starts.size (Nat.le_refl _) - 1

structure Range where
  start : Nat
  stop : Nat
deriving DecidableEq, Repr

def lineRange (index : LineIndex) (line : Int) : Option Range :=
  match index.lineStart line, index.lineStart (line + 1) with
  | some start, some stop => some ⟨start, stop⟩
  | _, _ => none

def describe (index : LineIndex) : String :=
  "LineIndex(lines=" ++ toString index.lineCount ++ ", length=" ++ toString index.length ++ ")"

end LineIndex

end SourceAtlas
