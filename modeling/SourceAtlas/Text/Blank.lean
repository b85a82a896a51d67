import SourceAtlas.Text.Ranges

/-! # Blanks

The white space of Unicode, and the larger class that also counts the four information separators
U+001C to U+001F. Trimming drops the characters of a class from both ends of a text.
-/

namespace SourceAtlas.Text

def whiteSpace : List (Nat × Nat) := [
  (0x09, 0x0D), (0x20, 0x20), (0x85, 0x85), (0xA0, 0xA0), (0x1680, 0x1680), (0x2000, 0x200A),
  (0x2028, 0x2029), (0x202F, 0x202F), (0x205F, 0x205F), (0x3000, 0x3000)]

def isWhiteSpace (c : Char) : Bool :=
  inRanges whiteSpace c

/-- White space and the information separators. -/
def isBlank (c : Char) : Bool :=
  isWhiteSpace c || inRanges [(0x1C, 0x1F)] c

/-- A text without the characters of a class at its ends. -/
def trim (drop : Char → Bool) (text : List Char) : List Char :=
  ((text.dropWhile drop).reverse.dropWhile drop).reverse

def strip (text : String) : String :=
  String.ofList (trim isBlank text.toList)

end SourceAtlas.Text
