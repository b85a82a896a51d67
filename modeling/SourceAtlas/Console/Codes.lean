import SourceAtlas.Text.Blank
import SourceAtlas.Text.Lowercase

/-! # Short codes

A name between colons may be a short code, which another text is shown for. In the name there are
neither blanks nor colons; its case does not matter, and `-emoji` or `-text` at its end asks for a
variant. A name that is no code is left as it is, with its colons.
-/

namespace SourceAtlas.Console

/-- What is shown for short codes, by their names in lower case. -/
abbrev Codes := List (String × String)

namespace Codes

/-- A name without the variant that it asks for, and the character for that. -/
def variantOf (name : List Char) : List Char × List Char :=
  if "-emoji".toList.isSuffixOf name then (name.take (name.length - 6), ['\uFE0F'])
  else if "-text".toList.isSuffixOf name then (name.take (name.length - 5), ['\uFE0E'])
  else (name, [])

def expand (codes : Codes) (name : List Char) : List Char :=
  let (code, variant) := variantOf name
  match codes.lookup (String.ofList (Text.lower code)) with
  | some text => text.toList ++ variant
  | none => ':' :: name ++ [':']

def inName (c : Char) : Bool :=
  c != ':' && !Text.isBlank c

/-- Replaces the codes in a text; `pending` is what follows the last colon that may begin one,
backwards. -/
def replaceAfter (codes : Codes) : (pending : Option (List Char)) → List Char → List Char
  | none, [] => []
  | some name, [] => ':' :: name.reverse
  | none, c :: rest =>
    if c = ':' then replaceAfter codes (some []) rest else c :: replaceAfter codes none rest
  | some name, c :: rest =>
    if c = ':' then expand codes name.reverse ++ replaceAfter codes none rest
    else if inName c then replaceAfter codes (some (c :: name)) rest
    else ':' :: name.reverse ++ c :: replaceAfter codes none rest

def replace (codes : Codes) (text : List Char) : List Char :=
  replaceAfter codes none text

def shownFor (codes : Codes) (text : String) : String :=
  String.ofList (codes.replace text.toList)

end Codes

end SourceAtlas.Console
