import SourceAtlas.Path

/-! # Kinds of files -/

namespace SourceAtlas

inductive FileKind where
  | script
  | module
deriving DecidableEq, Repr

namespace FileKind

def text : FileKind → String
  | script => "script"
  | module => "module"

def ofText? : String → Option FileKind
  | "script" => some script
  | "module" => some module
  | _ => none

def ofPath (path : Path) : FileKind :=
  if path.extension = "mjs" then module else script

end FileKind

end SourceAtlas
