import SourceAtlas.Text.Blank

/-! # Comma-separated items -/

namespace SourceAtlas.Text

/-- The items between commas, trimmed, without those that are blank. -/
def itemsOf (raw : List Char) : List (List Char) :=
  ((raw.splitOn ',').map (trim isBlank)).filter (!·.isEmpty)

def items (raw : String) : List String :=
  (itemsOf raw.toList).map String.ofList

end SourceAtlas.Text
