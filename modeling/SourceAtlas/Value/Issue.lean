/-! # Issues of a value

What a reader of structured values can object to, and where. Readers go on after an issue, so that
one value is answered with all its issues, in the order of the fields.
-/

namespace SourceAtlas

inductive Violation where
  | missing
  | notText
  | notInteger
  | notNumeral
  | numeralTooLong
  | fractional
  | notFinite
  | belowOne
  | notSet
  | notList
  | notKind
  | notObject (model : String)
  | nestedTooDeep
  | frozen
deriving DecidableEq, Repr

namespace Violation

def code : Violation → String
  | missing => "missing"
  | notText => "string_type"
  | notInteger => "int_type"
  | notNumeral => "int_parsing"
  | numeralTooLong => "int_parsing_size"
  | fractional => "int_from_float"
  | notFinite => "finite_number"
  | belowOne => "greater_than_equal"
  | notSet => "frozen_set_type"
  | notList => "list_type"
  | notKind => "enum"
  | notObject _ => "model_type"
  | nestedTooDeep => "recursion_loop"
  | frozen => "frozen_instance"

def message : Violation → String
  | missing => "Field required"
  | notText => "Input should be a valid string"
  | notInteger => "Input should be a valid integer"
  | notNumeral => "Input should be a valid integer, unable to parse string as an integer"
  | numeralTooLong => "Unable to parse input string as an integer, exceeded maximum size"
  | fractional => "Input should be a valid integer, got a number with a fractional part"
  | notFinite => "Input should be a finite number"
  | belowOne => "Input should be greater than or equal to 1"
  | notSet => "Input should be a valid frozenset"
  | notList => "Input should be a valid list"
  | notKind => "Input should be 'script' or 'module'"
  | notObject model => "Input should be a valid dictionary or instance of " ++ model
  | nestedTooDeep => "Recursion error - cyclic reference detected"
  | frozen => "Instance is frozen"

end Violation

inductive Place where
  | field (name : String)
  | index (i : Nat)
deriving DecidableEq, Repr

structure Issue where
  violation : Violation
  location : List Place
deriving DecidableEq, Repr

abbrev Checked (α : Type) := Except (List Issue) α

namespace Checked

variable {α β : Type}

def fail (violation : Violation) : Checked α :=
  .error [⟨violation, []⟩]

/-- Issues seen from one step further out. -/
def under (place : Place) : Checked α → Checked α
  | .ok a => .ok a
  | .error issues =>
    .error (issues.map fun issue => { issue with location := place :: issue.location })

def both : Checked α → Checked β → Checked (α × β)
  | .ok a, .ok b => .ok (a, b)
  | .error first, .error second => .error (first ++ second)
  | .error first, .ok _ => .error first
  | .ok _, .error second => .error second

/-- All values of a list, or all their issues, each at its index. -/
def all (read : α → Checked β) : (index : Nat) → List α → Checked (List β)
  | _, [] => .ok []
  | index, a :: rest =>
    ((under (.index index) (read a)).both (all read (index + 1) rest)).map fun (b, bs) => b :: bs

end Checked

end SourceAtlas
