import SourceAtlas.Session.Watcher

/-! # Steps of a session

Everything that changes a session is a step. A step that fails leaves catalogs and batches as they
were.
-/

namespace SourceAtlas

inductive Draft where
  | disk (source : String) (path : Path)
  | virtual (source : String) (name : Option String) (kind : Option Value)
  | full (source name : String) (path : Option Path) (id : Int) (kind : Value)

inductive Reaction where
  | refresh
  | record
deriving DecidableEq, Repr

structure WatchPlan where
  directory : Path
  extensions : Option (List String)
  calls : List Watcher.Call
  batches : List Batch
  reaction : Reaction
  fails : List Bool

inductive Step where
  | edit (edit : Edit)
  | create (name : String) (fields : List (String × Value))
  | ofRoots (name : String) (roots : List Path) (fields : List (String × Value)) (pool : Pool := {})
  | load (name : String) (roots : List Path) (pool : Pool := {})
  | loadBatch (name batch : String) (roots : List Path) (pool : Pool := {})
  | merge (name other : String)
  | mergeBatch (name batch : String)
  | add (name : String) (draft : Draft)
  | refresh (name : String) (path : Path)
  | refreshAll (name : String) (paths : List Path)
  | watch (name : String) (plan : WatchPlan)
  | replace (name : String) (id : Int) (source : String)

inductive Answer where
  | done
  | config (config : Config)
  | ids (ids : List Int)
  | id (id : Option Int)
  | watched (reports : List Watcher.Report) (delivered : List (List Path)) (opened : List Path)

namespace FileKind

def ofValue (value : Value) : Except Failure FileKind :=
  match value with
  | .text s => match ofText? s with
    | some kind => .ok kind
    | none => .error (.kind value.inner)
  | _ => .error (.kind value.inner)

end FileKind

namespace Session

/-- Makes a record by hand; one from disk is given a fresh id. -/
def make (s : Session) : Draft → Session × Except Failure SourceFile
  | .disk source path =>
    let (id, counter) := s.counter.issue
    ({ s with counter }, .ok (SourceFile.ofDisk id source path))
  | .virtual source name kind =>
    match (kind.map FileKind.ofValue).getD (.ok .script) with
    | .ok kind => (s, .ok (SourceFile.ofText source (name.getD virtualName) kind))
    | .error e => (s, .error e)
  | .full source name path id kind =>
    match FileKind.ofValue kind with
    | .ok kind => (s, .ok (SourceFile.make source name path id kind))
    | .error e => (s, .error e)

def withCatalog {α : Type} (s : Session) (name : String)
    (next : Catalog → Session × Except Failure α) : Session × Except Failure α :=
  match s.catalogs.get? name with
  | some catalog => next catalog
  | none => (s, .error (.noCatalog name))

def react (name : String) (reaction : Reaction) (fails : List Bool) (turn : Nat)
    (paths : List Path) (s : Session) : Session × Except Failure Unit :=
  if fails[turn]?.getD false then (s, .error (.raised "boom"))
  else match reaction with
    | .record => (s, .ok ())
    | .refresh => s.withCatalog name fun catalog => s.refreshAll catalog.table paths

def watch (s : Session) (name : String) (plan : WatchPlan) : Session × Answer :=
  let setup : Watcher.Setup := {
    directory := plan.directory
    extensions := plan.extensions.getD ({} : Config).extensions
    callback := react name plan.reaction plan.fails }
  let (state, reports) := setup.calls (.initial s plan.batches) plan.calls
  (state.session, .watched reports state.delivered state.opened)

def create (s : Session) (name : String) (config : Config) : Session :=
  { s with catalogs := s.catalogs.insert name ⟨config, .empty⟩ }

/-- Makes a catalog under a name and loads the files below some roots; nothing is made if that
fails. -/
def ofRoots (s : Session) (name : String) (config : Config) (roots : List Path)
    (pool : Pool := {}) : Session × Except Failure (List Int) :=
  s.load name ⟨config, .empty⟩ roots pool

def merge (s : Session) (name : String) (catalog : Catalog) (table : Table) : Session :=
  s.setTable name catalog (catalog.table.merge table)

def add (s : Session) (name : String) (catalog : Catalog) (record : SourceFile) : Session :=
  let (s, handle) := s.keep record
  s.setTable name catalog (catalog.table.insert record.id handle)

def perform (s : Session) : Step → Session × Except Failure Answer
  | .edit edit =>
    match s.files.apply edit with
    | (files, none) => ({ s with files }, .ok .done)
    | (files, some e) => ({ s with files }, .error (.file e))
  | .create name fields =>
    match Config.ofFields fields with
    | .ok config => (s.create name config, .ok (.config config))
    | .error issues => (s, .error (.config issues))
  | .ofRoots name roots fields pool =>
    match Config.ofFields fields with
    | .ok config =>
      let (s, outcome) := s.ofRoots name config roots pool
      (s, outcome.map .ids)
    | .error issues => (s, .error (.config issues))
  | .load name roots pool =>
    s.withCatalog name fun catalog =>
      let (s, outcome) := s.load name catalog roots pool
      (s, outcome.map .ids)
  | .loadBatch name batch roots pool =>
    s.withCatalog name fun catalog =>
      match s.read catalog.config roots pool with
      | (s, .ok table) =>
        ({ s with batches := s.batches.insert batch table }, .ok (.ids table.keys))
      | (s, .error e) => (s, .error e)
  | .merge name other =>
    s.withCatalog name fun catalog =>
      s.withCatalog other fun source => (s.merge name catalog source.table, .ok .done)
  | .mergeBatch name batch =>
    s.withCatalog name fun catalog =>
      match s.batches.get? batch with
      | some table => (s.merge name catalog table, .ok .done)
      | none => (s, .error (.noBatch batch))
  | .add name draft =>
    s.withCatalog name fun catalog =>
      match s.make draft with
      | (s, .ok record) => (s.add name catalog record, .ok (.id (some record.id)))
      | (s, .error e) => (s, .error e)
  | .refresh name path =>
    s.withCatalog name fun catalog =>
      match s.refresh catalog.table path with
      | (s, .ok handle) => (s, .ok (.id (handle.map s.idOf)))
      | (s, .error e) => (s, .error e)
  | .refreshAll name paths =>
    s.withCatalog name fun catalog =>
      let (s, outcome) := s.refreshAll catalog.table paths
      (s, outcome.map fun _ => .done)
  | .watch name plan =>
    s.withCatalog name fun _ =>
      let (s, answer) := s.watch name plan
      (s, .ok answer)
  | .replace name id source =>
    s.withCatalog name fun catalog =>
      match catalog.table.get? id with
      | some handle => (s.replace handle source, .ok .done)
      | none => (s, .ok .done)

/-- Carries out steps one after the other, whatever they fail with. -/
def run (s : Session) (steps : List Step) : Session :=
  steps.foldl (fun s step => (s.perform step).1) s

end Session

end SourceAtlas
