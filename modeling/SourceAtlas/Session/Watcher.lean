import SourceAtlas.Session.Basic

/-! # Watching a directory

A watcher is idle or holds a task. A started task is pending until it is waited for; then it reads
the stream of change batches to its end, or until it fails. For each batch the changed paths with a
watched extension, if there are any, go to a callback. A failure of the callback is logged, but an
interruption of it is one of the task. A task that has failed is kept, and fails again whenever it is
waited for or stopped.

The stream is what a library makes of the events of the system: it leaves out paths by itself, such as
those with a component `node_modules`, before there is a batch.
-/

namespace SourceAtlas

inductive Batch where
  | changes (edits : List Edit) (paths : List Path)
  | failing (failure : Failure)

namespace Watcher

inductive Phase where
  | idle
  | pending
  | finished
  | failed (failure : Failure)
deriving DecidableEq, Repr

def Phase.isRunning : Phase → Bool
  | idle => false
  | _ => true

inductive Call where
  | start
  | stop
  | wait
deriving DecidableEq, Repr

/-- What a watcher is set up with; the callback is given the number of callbacks before it. -/
structure Setup where
  directory : Path
  extensions : List String
  callback : Nat → List Path → Session → Session × Except Failure Unit

structure State where
  session : Session
  phase : Phase
  queue : List Batch
  opened : List Path
  delivered : List (List Path)

def accepts (extensions : List String) (path : Path) : Bool :=
  extensions.contains path.extension

/-- The different paths of a batch that have a watched extension. -/
def Setup.hits (setup : Setup) (paths : List Path) : List Path :=
  Path.sorted (paths.filter (accepts setup.extensions))

/-- Hands the paths of a batch to the callback, if there are any, and tells why the task fails of it,
if it does. -/
def Setup.deliver (setup : Setup) (state : State) (paths : List Path) : State × Option Failure :=
  match setup.hits paths with
  | [] => (state, none)
  | hits =>
    let delivered := state.delivered ++ [hits]
    match setup.callback state.delivered.length hits
        (state.session.emit (.changesDetected hits.length)) with
    | (session, .ok ()) => ({ state with session, delivered }, none)
    | (session, .error .interrupted) => ({ state with session, delivered }, some .interrupted)
    | (session, .error failure) =>
      ({ state with session := session.emit (.callbackFailed failure), delivered }, none)

def Setup.consume (setup : Setup) (state : State) : (queue : List Batch) → State
  | [] => { state with queue := [], phase := .finished }
  | .failing failure :: rest => { state with queue := rest, phase := .failed failure }
  | .changes edits paths :: rest =>
    match state.session.files.applyAll edits with
    | (files, some e) =>
      { state with
        session := { state.session with files }, queue := rest, phase := .failed (.file e) }
    | (files, none) =>
      match setup.deliver { state with session := { state.session with files } } paths with
      | (state, some failure) => { state with queue := rest, phase := .failed failure }
      | (state, none) => setup.consume state rest

/-- What waiting for the held task, or stopping it, raises. -/
def Phase.outcome : Phase → Except Failure Unit
  | failed failure => .error failure
  | _ => .ok ()

def Setup.start (setup : Setup) (state : State) : State :=
  match state.phase with
  | .idle =>
    { state with
      phase := .pending, session := state.session.emit (.watchStarted setup.directory) }
  | _ => state

/-- Waits for the task; a pending one begins its stream now. -/
def Setup.wait (setup : Setup) (state : State) : State :=
  match state.phase with
  | .pending =>
    setup.consume { state with opened := state.opened ++ [setup.directory] } state.queue
  | _ => state

/-- Gives up the task, unless it has failed. -/
def Setup.stop (setup : Setup) (state : State) : State :=
  match state.phase with
  | .idle | .failed _ => state
  | .pending | .finished =>
    { state with phase := .idle, session := state.session.emit (.watchStopped setup.directory) }

def Setup.call (setup : Setup) (state : State) : Call → State × Except Failure Unit
  | .start => (setup.start state, .ok ())
  | .wait => (setup.wait state, (setup.wait state).phase.outcome)
  | .stop => (setup.stop state, state.phase.outcome)

structure Report where
  call : Call
  outcome : Except Failure Unit
  isRunning : Bool
  log : List Event

def Setup.calls (setup : Setup) (state : State) : List Call → State × List Report
  | [] => (state, [])
  | call :: rest =>
    let (next, outcome) := setup.call state call
    let log := next.session.log.drop state.session.log.length
    let (last, reports) := setup.calls next rest
    (last, ⟨call, outcome, next.phase.isRunning, log⟩ :: reports)

def State.initial (session : Session) (queue : List Batch) : State :=
  ⟨session, .idle, queue, [], []⟩

end Watcher

end SourceAtlas
