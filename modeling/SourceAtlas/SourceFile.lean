import SourceAtlas.LineIndex
import SourceAtlas.Syntax.Parsed
import SourceAtlas.Text.Quoted

/-! # Source files

A record of one file, on disk or virtual: its id, name, path and kind, and a snapshot of its text.
The snapshot holds the text, its bytes and its line index, and is replaced as a whole.
-/

namespace SourceAtlas

structure Snapshot where
  source : String
  bytes : Bytes
  lines : LineIndex
deriving DecidableEq, Repr

def Snapshot.of (source : String) : Snapshot :=
  let bytes := Utf8.encode source
  ⟨source, bytes, LineIndex.ofBytes bytes⟩

structure SourceFile where
  id : Int
  name : String
  path : Option Path
  kind : FileKind
  snapshot : Snapshot
deriving DecidableEq, Repr

/-- The id of files that are not on disk; it is never issued. -/
def virtualId : Int := 0

def virtualName : String := "<virtual>"

namespace SourceFile

def make (source name : String) (path : Option Path) (id : Int) (kind : FileKind) : SourceFile :=
  ⟨id, name, path, kind, Snapshot.of source⟩

def ofDisk (id : Int) (source : String) (path : Path) : SourceFile :=
  make source path.name (some path) id (FileKind.ofPath path)

def ofText (source name : String) (kind : FileKind) : SourceFile :=
  make source name none virtualId kind

def source (file : SourceFile) : String :=
  file.snapshot.source

def bytes (file : SourceFile) : Bytes :=
  file.snapshot.bytes

def lines (file : SourceFile) : LineIndex :=
  file.snapshot.lines

/-- The path as a text, or the name of a file without a path. -/
def displayName (file : SourceFile) : String :=
  match file.path with
  | some path => path.text
  | none => file.name

def replaceContent (file : SourceFile) (source : String) : SourceFile :=
  { file with snapshot := Snapshot.of source }

def lineStart (file : SourceFile) (line : Int) : Option Nat :=
  file.lines.lineStart line

def lineAt (file : SourceFile) (offset : Int) : Int :=
  file.lines.lineAt offset

def lineRange (file : SourceFile) (line : Int) : Option LineIndex.Range :=
  file.lines.lineRange line

/-- The text of a line with its newline, if there is such a line. -/
def lineText (file : SourceFile) (line : Int) : Option (Except Utf8.Malformed String) :=
  (file.lineRange line).map fun range => Utf8.decode (file.bytes.slice range.start range.stop)

/-- The offset of a line and column, both from zero; whether the line is that long is not
checked. -/
def resolvePosition (file : SourceFile) (line column : Int) : Option Int :=
  (file.lineStart line).map fun start => start + column

/-- The column, from one, of an offset on the line that starts at `start`: the characters before it
are counted. -/
def column (bytes : Bytes) (start offset : Int) : Nat :=
  Utf8.lenientLength (bytes.slice start offset) + 1

/-- Where an offset lies: its line and column, both from one, with the offsets of the line and its
text without the characters that end it. -/
structure Location where
  line : Int
  column : Nat
  range : LineIndex.Range
  text : String
deriving DecidableEq, Repr

def withoutLineEnd (line : String) : String :=
  String.ofList (line.toList.reverse.dropWhile fun c => c = '\r' || c = '\n').reverse

/-- The location of an offset, if it lies on a line that can be read. -/
def locate (file : SourceFile) (offset : Int) : Option Location :=
  let line := file.lineAt offset
  match file.lineRange line, file.lineText line with
  | some range, some (.ok text) =>
    some ⟨line + 1, column file.bytes range.start offset, range, withoutLineEnd text⟩
  | _, _ => none

/-- The line and column, both from one, of an offset; it may lie past the end. -/
def position? (file : SourceFile) (offset : Int) : Option (Int × Nat) :=
  let line := file.lineAt offset
  (file.lineStart line).map fun start => (line + 1, column file.bytes start offset)

def parse (grammar : Grammar) (file : SourceFile) : Option ParsedFile :=
  (grammar file.source).map (ParsedFile.ofTree file.kind file.id)

/-- Records are equal when all but their derived data agree. -/
def same (a b : SourceFile) : Bool :=
  a.id == b.id && a.name == b.name && a.path == b.path && a.kind == b.kind && a.source == b.source

def describe (file : SourceFile) : String :=
  "SourceFile(file_id=" ++ toString file.id ++ ", name=" ++ Text.quoted file.name ++ ", kind=" ++
    file.kind.text ++ ")"

end SourceFile

end SourceAtlas
