import SourceAtlas.Text.Items
import SourceAtlas.Value.Reading

/-! # Configuration

Which names are skipped, which extensions are read and how many files are read at once. Sets of
names are kept in ascending order without repetition, so that equal sets are equal values. A
configuration is built from named fields; the environment is one source of such fields.
-/

namespace SourceAtlas

/-- The different names of a list in ascending order. -/
def nameSet (names : List String) : List String :=
  (names.mergeSort (· ≤ ·)).eraseDups

structure Config where
  ignored : List String := ["node_modules"]
  extensions : List String := ["js", "mjs"]
  maxWorkers : Option Nat := none
deriving DecidableEq, Repr

namespace Config

def ignores (config : Config) (name : String) : Bool :=
  config.ignored.contains name

/-- An extension without blanks around it and without a dot in front. -/
def normalise (extension : String) : String :=
  match (Text.strip extension).toList with
  | '.' :: rest => String.ofList rest
  | chars => String.ofList chars

def readIgnored : Value → Checked (List String)
  | .list items => (Checked.all Value.readText 0 items).map nameSet
  | _ => .fail .notSet

/-- A lone extension counts as a list of one, and any item of a list as its text. -/
def readExtensions : Value → Checked (List String)
  | .text s => .ok (nameSet [normalise s])
  | .list items => .ok (nameSet (items.map fun item => normalise item.display))
  | _ => .fail .notSet

def readMaxWorkers : Value → Checked (Option Nat)
  | .null => .ok none
  | value => match value.readInt with
    | .ok n => if 1 ≤ n then .ok (some n.toNat) else .fail .belowOne
    | .error issues => .error issues

/-- The configuration with some fields set; fields of other names are passed over. -/
def ofFields (fields : List (String × Value)) : Checked Config :=
  let plain : Config := {}
  let ignored := Value.optional "ignored" plain.ignored readIgnored fields
  let extensions := Value.optional "linted_extensions" plain.extensions readExtensions fields
  let maxWorkers := Value.optional "max_workers" plain.maxWorkers readMaxWorkers fields
  ((ignored.both extensions).both maxWorkers).map fun ((ignored, extensions), maxWorkers) =>
    { ignored, extensions, maxWorkers }

inductive AssignError where
  | invalid (issues : List Issue)
  | shared (name : String)
  | readOnly (name : String)
  | computed (name : String)
  | notClass (typeName : String)
  | notDictionary (typeName : String)
deriving DecidableEq, Repr

def AssignError.message : AssignError → String
  | invalid issues => ", ".intercalate (issues.map (·.violation.message))
  | shared name =>
    Text.quoted name ++ " is a ClassVar of `WalkerConfig` and cannot be set on an instance. " ++
      "If you want to set a value on the class, use `WalkerConfig." ++ name ++ " = value`."
  | readOnly name => "attribute '" ++ name ++ "' of 'WalkerConfig' objects is not writable"
  | computed name => "property '" ++ name ++ "' of 'WalkerConfig' object has no setter"
  | notClass name => "__class__ must be set to a class, not '" ++ name ++ "' object"
  | notDictionary name => "__dict__ must be set to a dictionary, not a '" ++ name ++ "'"

/-- The names that all configurations have in common. -/
def sharedNames : List String :=
  ["__class_vars__", "__private_attributes__", "__signature__"] ++
    ["complete", "core_schema", "custom_init", "decorators", "generic_metadata",
      "parent_namespace", "post_init", "root_model", "serializer", "validator", "fields",
      "setattr_handlers", "computed_fields"].map fun name => "__pydantic_" ++ name ++ "__"

/-- A built configuration takes no assignment. A name that begins with an underscore is not one of
its fields; to most of these anything may be assigned, which changes nothing. -/
def assign (config : Config) (name : String) (value : Value) : Except AssignError Config :=
  if sharedNames.contains name then .error (.shared name)
  else match name, value with
    | "__class__", value => .error (.notClass value.typeName)
    | "__dict__", .object _ => .ok config
    | "__dict__", value => .error (.notDictionary value.typeName)
    | "__weakref__", _ => .error (.readOnly name)
    | "__fields_set__", _ => .error (.computed name)
    | name, _ =>
      if name.startsWith "_" then .ok config
      else .error (.invalid [⟨.frozen, [.field name]⟩])

def toFields (config : Config) : List (String × Value) :=
  [("ignored", .list (config.ignored.map .text)),
    ("linted_extensions", .list (config.extensions.map .text)),
    ("max_workers", match config.maxWorkers with
      | none => .null
      | some n => .int n)]

abbrev Environment := List (String × String)

namespace Environment

def names : List String :=
  ["LINTWALK_IGNORED", "LINTWALK_EXTENSIONS", "LINTWALK_MAX_WORKERS"]

/-- The value of a variable, empty if it is not set. -/
def get (environment : Environment) (name : String) : String :=
  (List.lookup name environment).getD ""

end Environment

def listField (name : String) (items : List String) : List (String × Value) :=
  if items.isEmpty then [] else [(name, .list (items.map .text))]

/-- The fields that the environment sets; a variable that holds nothing sets none. -/
def fieldsOf (environment : Environment) : List (String × Value) :=
  let workers := Text.strip (environment.get "LINTWALK_MAX_WORKERS")
  listField "ignored" (Text.items (environment.get "LINTWALK_IGNORED")) ++
    listField "linted_extensions" (Text.items (environment.get "LINTWALK_EXTENSIONS")) ++
    (if workers = "" then [] else [("max_workers", .text workers)])

def ofEnvironment (environment : Environment) : Checked Config :=
  ofFields (fieldsOf environment)

end Config

end SourceAtlas
