import SourceAtlas.Config
import SourceAtlas.FileSystem.Walk
import SourceAtlas.OrderedMap
import SourceAtlas.Session.Event
import SourceAtlas.Session.Pool
import SourceAtlas.SourceFile

/-! # Sessions

A session holds what one process works on: the files, one counter for the ids of all records, the
records, and catalogs under names. A catalog is a configuration with a table from ids to records; a
batch is a table of records that were read and not yet put into a catalog. Tables refer to records
by handles, so that a record that several tables hold changes for all of them at once.

The files of a load are read by a pool of workers. New ids and warnings come in the order in which
the workers are done, whereas a batch is in the order in which the files were found.
-/

namespace SourceAtlas

structure IdCounter where
  next : Int
deriving DecidableEq, Repr

namespace IdCounter

/-- A counter that has issued nothing; zero is left to files that are not on disk. -/
def fresh : IdCounter := ⟨1⟩

def issue (counter : IdCounter) : Int × IdCounter :=
  (counter.next, ⟨counter.next + 1⟩)

def issueMany (counter : IdCounter) : (count : Nat) → List Int × IdCounter
  | 0 => ([], counter)
  | count + 1 =>
    let (id, counter) := counter.issue
    let (ids, counter) := counter.issueMany count
    (id :: ids, counter)

end IdCounter

/-- The place of a record among the records of a session. -/
abbrev Handle := Nat

abbrev Table := OrderedMap Int Handle

structure Catalog where
  config : Config
  table : Table

namespace Config

def reads (config : Config) (path : Path) : Bool :=
  config.extensions.contains path.extension

/-- Whether an item of a walk is an error or a file that is read. -/
def keeps (config : Config) : Except FileError Path → Bool
  | .ok path => config.reads path
  | .error _ => true

/-- The files below some roots that a configuration asks for, up to the first error. -/
def candidates (config : Config) (fs : FileSystem) (roots : List Path) :
    List Path × Option FileError :=
  FileSystem.upToError (roots.flatMap fun root => (fs.walk config.ignores root).filter config.keeps)

end Config

structure Session where
  files : FileSystem
  trees : List (String × Tree)
  counter : IdCounter
  records : Array SourceFile
  catalogs : OrderedMap String Catalog
  batches : OrderedMap String Table
  log : List Event

namespace Session

def start (files : FileSystem) (trees : List (String × Tree)) : Session :=
  ⟨files, trees, .fresh, #[], .empty, .empty, []⟩

/-- Of two trees for one text the later counts. -/
def grammar (s : Session) : Grammar :=
  fun source => List.lookup source s.trees.reverse

def emit (s : Session) (event : Event) : Session :=
  { s with log := s.log ++ [event] }

def keep (s : Session) (record : SourceFile) : Session × Handle :=
  ({ s with records := s.records.push record }, s.records.size)

def record? (s : Session) (table : Table) (id : Int) : Option SourceFile :=
  (table.get? id).bind (s.records[·]?)

def recordsOf (s : Session) (table : Table) : List SourceFile :=
  table.values.filterMap (s.records[·]?)

def setTable (s : Session) (name : String) (catalog : Catalog) (table : Table) : Session :=
  { s with catalogs := s.catalogs.insert name { catalog with table } }

/-! ## Loading -/

/-- Reads one file: a new record under a fresh id, or a warning. -/
def take (s : Session) (path : Path) : Session × Option (Int × Handle) :=
  match s.files.readSource path with
  | .error e => (s.emit (.readFailed path e), none)
  | .ok source =>
    let (id, counter) := s.counter.issue
    let (s, handle) := { s with counter }.keep (SourceFile.ofDisk id source path)
    (s, some (id, handle))

def takeAll (s : Session) : (paths : List Path) → Session × List (Option (Int × Handle))
  | [] => (s, [])
  | path :: rest =>
    let (s, result) := s.take path
    let (s, results) := s.takeAll rest
    (s, result :: results)

/-- Reads the files below some roots without touching a table. Files that were found before a root
failed have been read by then and have used up ids. -/
def read (s : Session) (config : Config) (roots : List Path) (pool : Pool := {}) :
    Session × Except Failure Table :=
  let (paths, failure) := config.candidates s.files roots
  let tasks := pool.order config.maxWorkers paths.zipIdx
  let (s, results) := s.takeAll (tasks.map (·.1))
  match failure with
  | some e => (s, .error (.file e))
  | none => (s, .ok (.ofList ((Pool.collect (tasks.map (·.2)) results).filterMap id)))

def extend (s : Session) (config : Config) (table : Table) (roots : List Path)
    (pool : Pool := {}) : Session × Except Failure (Table × List Int) :=
  match s.read config roots pool with
  | (s, .error e) => (s, .error e)
  | (s, .ok batch) => (s.emit (.loaded batch.size), .ok (table.merge batch, batch.keys))

def load (s : Session) (name : String) (catalog : Catalog) (roots : List Path)
    (pool : Pool := {}) : Session × Except Failure (List Int) :=
  match s.extend catalog.config catalog.table roots pool with
  | (s, .error e) => (s, .error e)
  | (s, .ok (table, ids)) => (s.setTable name catalog table, .ok ids)

/-! ## Refreshing -/

def isNamed (s : Session) (name : String) (handle : Handle) : Bool :=
  match s.records[handle]? with
  | some record => record.path.any (·.name == name)
  | none => false

/-- The first record of a table whose path has the same last component as a path. -/
def target? (s : Session) (table : Table) (path : Path) : Option Handle :=
  table.values.find? (s.isNamed path.name)

def replace (s : Session) (handle : Handle) (source : String) : Session :=
  { s with records := s.records.modify handle (·.replaceContent source) }

def idOf (s : Session) (handle : Handle) : Int :=
  (s.records[handle]?.map (·.id)).getD virtualId

/-- Reads a path again for the first record of its name. What cannot be read leaves the record as
it is; only a path that no file can have is an error. -/
def refresh (s : Session) (table : Table) (path : Path) :
    Session × Except Failure (Option Handle) :=
  match s.target? table path with
  | none => (s, .ok none)
  | some handle =>
    match s.files.readSource path with
    | .ok source =>
      ((s.replace handle source).emit (.refreshed (s.idOf handle) path), .ok (some handle))
    | .error (.file .embeddedNul) => (s, .error (.file .embeddedNul))
    | .error e => (s.emit (.reloadFailed path e), .ok none)

/-- Refreshes paths one after the other, up to the first that is an error. -/
def refreshEach (s : Session) (table : Table) : (paths : List Path) → Session × Except Failure Unit
  | [] => (s, .ok ())
  | path :: rest =>
    match s.refresh table path with
    | (s, .ok _) => s.refreshEach table rest
    | (s, .error e) => (s, .error e)

def refreshAll (s : Session) (table : Table) (paths : List Path) : Session × Except Failure Unit :=
  s.refreshEach table (Path.sorted paths)

/-! ## Comparing -/

/-- Whether two tables have the same ids and equal records under each, in any order. -/
def equalTables (s : Session) (a b : Table) : Bool :=
  a.size == b.size && a.keys.all fun id =>
    match s.record? a id, s.record? b id with
    | some x, some y => x.same y
    | _, _ => false

end Session

end SourceAtlas
