import SourceAtlas.Number.Numeral
import SourceAtlas.Value
import SourceAtlas.Value.Issue

/-! # Reading values leniently

Texts are taken as they are. Integers are also taken from booleans, from doubles without a
fractional part, and from numerals.
-/

namespace SourceAtlas

namespace Value

def readText : Value → Checked String
  | .text s => .ok s
  | _ => .fail .notText

def readNumeral (text : String) : Checked Int :=
  match Numeral.read text with
  | .ok n => .ok n
  | .error .malformed => .fail .notNumeral
  | .error .tooLong => .fail .numeralTooLong

/-- The whole doubles that are read lie strictly between -2⁶³ and 2⁶³. -/
def readInt : Value → Checked Int
  | .int n => .ok n
  | .bool b => .ok (if b then 1 else 0)
  | .text s => readNumeral s
  | .double (.infinite _) | .double .nan => .fail .notFinite
  | .double x =>
    match x.toInt? with
    | none => .fail .fractional
    | some n =>
      if -0x8000000000000000 < n ∧ n < 0x8000000000000000 then .ok n else .fail .numeralTooLong
  | _ => .fail .notInteger

def required {α : Type} (name : String) (read : Value → Checked α)
    (fields : List (String × Value)) : Checked α :=
  .under (.field name) (match field? fields name with
    | some value => read value
    | none => .fail .missing)

def optional {α : Type} (name : String) (absent : α) (read : Value → Checked α)
    (fields : List (String × Value)) : Checked α :=
  .under (.field name) (match field? fields name with
    | some value => read value
    | none => .ok absent)

end Value

end SourceAtlas
