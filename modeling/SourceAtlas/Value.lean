import SourceAtlas.Number.Double
import SourceAtlas.Text.Quoted

/-! # Structured values

The values that a configuration or a stored model is read from: integers without bound and doubles
are told apart, and an object keeps the order of its fields.
-/

namespace SourceAtlas

inductive Value where
  | null
  | bool (b : Bool)
  | int (n : Int)
  | double (x : Double)
  | text (s : String)
  | list (items : List Value)
  | object (fields : List (String × Value))

namespace Value

/-- The value of a field; of two fields of one name the later counts. -/
def field? (fields : List (String × Value)) (name : String) : Option Value :=
  (fields.reverse.find? (·.1 == name)).map (·.2)

mutual

/-- The text of a value inside another one, where texts are quoted. -/
def inner : Value → String
  | .null => "None"
  | .bool b => if b then "True" else "False"
  | .int n => toString n
  | .double x => x.text
  | .text s => Text.quoted s
  | .list items => "[" ++ innerItems items ++ "]"
  | .object fields => "\x7b" ++ innerFields fields ++ "\x7d"
termination_by structural v => v

def innerItems : List Value → String
  | [] => ""
  | [item] => item.inner
  | item :: rest => item.inner ++ ", " ++ innerItems rest
termination_by structural items => items

def innerFields : List (String × Value) → String
  | [] => ""
  | [(name, value)] => Text.quoted name ++ ": " ++ value.inner
  | (name, value) :: rest =>
    Text.quoted name ++ ": " ++ value.inner ++ ", " ++ innerFields rest
termination_by structural fields => fields

end

def typeName : Value → String
  | .null => "NoneType"
  | .bool _ => "bool"
  | .int _ => "int"
  | .double _ => "float"
  | .text _ => "str"
  | .list _ => "list"
  | .object _ => "dict"

def display : Value → String
  | .text s => s
  | value => value.inner

end Value

end SourceAtlas
