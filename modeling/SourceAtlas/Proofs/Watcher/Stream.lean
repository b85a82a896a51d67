import Mathlib.Tactic
import SourceAtlas.Proofs.PathOrder
import SourceAtlas.Proofs.Session.Refreshing

/-! # Streams of changes

A stream takes batches from a queue up to its end or up to the first batch that it fails of. Which
these are and how they leave the files is decided by the queue and the files alone: callbacks that
leave the files alone have no part in it. Over any sequence of calls, then, the batches that were
taken account for the files, for the callbacks and for the failure that a watcher holds.
-/

namespace SourceAtlas

/-- What a batch reports: the changed paths, with the files as they are then. -/
structure Notice where
  files : FileSystem
  paths : List Path

namespace Batch

/-- How a batch leaves the files when it comes up, and why a stream fails of it, if it does. -/
def arrive (files : FileSystem) : Batch → FileSystem × Option Failure
  | .failing failure => (files, some failure)
  | .changes edits _ => ((files.applyAll edits).1, (files.applyAll edits).2.map .file)

def paths : Batch → List Path
  | .failing _ => []
  | .changes _ paths => paths

/-- The files after batches have come up one after the other. -/
def filesAfter (files : FileSystem) (batches : List Batch) : FileSystem :=
  batches.foldl (fun files batch => (batch.arrive files).1) files

/-- The notices of the batches that no stream fails of. -/
def notices (files : FileSystem) : List Batch → List Notice
  | [] => []
  | batch :: rest =>
    (if (batch.arrive files).2.isNone then [⟨(batch.arrive files).1, batch.paths⟩] else []) ++
      notices (batch.arrive files).1 rest

def failures (files : FileSystem) : List Batch → List Failure
  | [] => []
  | batch :: rest => (batch.arrive files).2.toList ++ failures (batch.arrive files).1 rest

def taken (files : FileSystem) : (queue : List Batch) → List Batch
  | [] => []
  | batch :: rest =>
    batch :: if (batch.arrive files).2.isNone then taken (batch.arrive files).1 rest else []

variable {files : FileSystem} {batch : Batch} {queue batches more : List Batch}

theorem filesAfter_cons : filesAfter files (batch :: batches) =
    filesAfter (batch.arrive files).1 batches := rfl

theorem filesAfter_append (files : FileSystem) (batches more : List Batch) :
    filesAfter files (batches ++ more) = filesAfter (filesAfter files batches) more :=
  List.foldl_append

theorem notices_append (files : FileSystem) (batches more : List Batch) :
    notices files (batches ++ more) =
      notices files batches ++ notices (filesAfter files batches) more := by
  induction batches generalizing files with
  | nil => rfl
  | cons batch rest ih => rw [List.cons_append, notices, ih, notices, List.append_assoc,
      filesAfter_cons]

theorem failures_append (files : FileSystem) (batches more : List Batch) :
    failures files (batches ++ more) =
      failures files batches ++ failures (filesAfter files batches) more := by
  induction batches generalizing files with
  | nil => rfl
  | cons batch rest ih => rw [List.cons_append, failures, ih, failures, List.append_assoc,
      filesAfter_cons]

theorem taken_cons_of_none (h : (batch.arrive files).2 = none) :
    taken files (batch :: queue) = batch :: taken (batch.arrive files).1 queue := by
  simp [taken, h]

theorem taken_cons_of_some {failure : Failure} (h : (batch.arrive files).2 = some failure) :
    taken files (batch :: queue) = [batch] := by
  simp [taken, h]

end Batch

namespace Watcher

open Batch

variable {setup : Setup} {s s' s'' : Session} {state : State} {batch : Batch}
  {queue batches : List Batch} {files : FileSystem} {paths : List Path} {turn : ℕ}
  {handed more : List Notice}

def Setup.LeavesFiles (setup : Setup) : Prop :=
  ∀ turn paths s, (setup.callback turn paths s).1.files = s.files

structure Setup.Steady (setup : Setup) : Prop where
  leavesFiles : setup.LeavesFiles
  uninterrupted : ∀ turn paths s, (setup.callback turn paths s).2 ≠ .error .interrupted

/-- The notices that the callback is called for, with the paths that it is given. -/
def Setup.callbacks (setup : Setup) (notices : List Notice) : List Notice :=
  (notices.map fun notice => ⟨notice.files, setup.hits notice.paths⟩).filter (!·.paths.isEmpty)

theorem callbacks_nil (setup : Setup) : setup.callbacks [] = [] := rfl

theorem callbacks_cons_of_nil {notice : Notice} (h : setup.hits notice.paths = [])
    (notices : List Notice) : setup.callbacks (notice :: notices) = setup.callbacks notices := by
  simp [Setup.callbacks, h]

theorem callbacks_cons_of_ne_nil {notice : Notice} (h : setup.hits notice.paths ≠ [])
    (notices : List Notice) : setup.callbacks (notice :: notices) =
      ⟨notice.files, setup.hits notice.paths⟩ :: setup.callbacks notices := by
  simp [Setup.callbacks, h]

theorem callbacks_append (setup : Setup) (notices more : List Notice) :
    setup.callbacks (notices ++ more) = setup.callbacks notices ++ setup.callbacks more := by
  rw [Setup.callbacks, List.map_append, List.filter_append]
  rfl

/-! ## Calls of the callback -/

/-- The callback is called for notices one after the other, the first after `turn` others, and makes
of one session the other. Before and after its calls files change and something is logged, but
nothing else happens to a session. -/
inductive Setup.CallsBack (setup : Setup) : ℕ → Session → List Notice → Session → Prop
  | nil {turn : ℕ} {s : Session} (files : FileSystem) (log : List Event) :
      CallsBack setup turn s [] { s with files, log := s.log ++ log }
  | cons {turn : ℕ} {s s' : Session} {notice : Notice} {rest : List Notice} (log : List Event) :
      CallsBack setup (turn + 1) (setup.callback turn notice.paths
        { s with
          files := notice.files
          log := s.log ++ log ++ [.changesDetected notice.paths.length] }).1 rest s' →
      CallsBack setup turn s (notice :: rest) s'

namespace Setup.CallsBack

theorem of_quiet {log : List Event}
    (h : setup.CallsBack turn { s with files, log := s.log ++ log } handed s') :
    setup.CallsBack turn s handed s' := by
  cases h with
  | nil files' log' =>
    dsimp only
    rw [List.append_assoc]
    exact .nil files' (log ++ log')
  | cons log' h =>
    refine .cons (log ++ log') ?_
    rwa [← List.append_assoc]

theorem quiet (setup : Setup) (turn : ℕ) (s : Session) (log : List Event) :
    setup.CallsBack turn s [] { s with log := s.log ++ log } :=
  .nil s.files log

theorem refl (setup : Setup) (turn : ℕ) (s : Session) : setup.CallsBack turn s [] s := by
  have h := quiet setup turn s []
  rwa [List.append_nil] at h

theorem append (h : setup.CallsBack turn s handed s')
    (h' : setup.CallsBack (turn + handed.length) s' more s'') :
    setup.CallsBack turn s (handed ++ more) s'' := by
  induction h with
  | nil files log => exact h'.of_quiet
  | @cons turn s s' notice rest log h ih =>
    rw [List.length_cons, Nat.add_comm rest.length, ← Nat.add_assoc] at h'
    exact .cons log (ih h')

theorem emit (h : setup.CallsBack turn s handed s') (event : Event) :
    setup.CallsBack turn s handed (s'.emit event) := by
  have hemit := h.append (quiet setup _ s' [event])
  rwa [List.append_nil] at hemit

end Setup.CallsBack

/-! ## One stream -/

/-- What handing on the paths of a batch comes to: nothing if none of them is watched, and otherwise
one call of the callback and what is logged of it. -/
theorem deliver_cases (setup : Setup) (state : State) (paths : List Path) :
    setup.hits paths = [] ∧ setup.deliver state paths = (state, none) ∨
      setup.hits paths ≠ [] ∧ ∃ called log failure,
        called = setup.callback state.delivered.length (setup.hits paths)
          (state.session.emit (.changesDetected (setup.hits paths).length)) ∧
        setup.deliver state paths = ({ state with
          session := { called.1 with log := called.1.log ++ log }
          delivered := state.delivered ++ [setup.hits paths] }, failure) ∧
        (failure = none ∨ failure = some .interrupted ∧ called.2 = .error .interrupted) := by
  by_cases hn : setup.hits paths = []
  · exact Or.inl ⟨hn, by simp only [Setup.deliver, hn]⟩
  refine Or.inr ⟨hn, setup.callback state.delivered.length (setup.hits paths)
    (state.session.emit (.changesDetected (setup.hits paths).length)), ?_⟩
  unfold Setup.deliver
  split
  · next h => exact absurd h hn
  split
  · next session hc => exact ⟨[], none, rfl, by rw [hc, List.append_nil], Or.inl rfl⟩
  · next session hc =>
    exact ⟨[], some .interrupted, rfl, by rw [hc, List.append_nil], Or.inr ⟨rfl, by rw [hc]⟩⟩
  · next session failure _ hc =>
    exact ⟨[.callbackFailed failure], none, rfl, by rw [hc]; rfl, Or.inl rfl⟩

/-- What the callbacks of some notices account for between two states of a watcher. -/
structure Setup.Delivers (setup : Setup) (state : State) (notices : List Notice) (state' : State) :
    Prop where
  opened_eq : state'.opened = state.opened
  delivered_eq : state'.delivered = state.delivered ++ (setup.callbacks notices).map (·.paths)
  calls : setup.CallsBack state.delivered.length state.session (setup.callbacks notices) state'.session

theorem Setup.Delivers.append {state' state'' : State} {notices more : List Notice}
    (h : setup.Delivers state notices state') (h' : setup.Delivers state' more state'') :
    setup.Delivers state (notices ++ more) state'' where
  opened_eq := h'.opened_eq.trans h.opened_eq
  delivered_eq := by
    rw [h'.delivered_eq, h.delivered_eq, callbacks_append, List.map_append, List.append_assoc]
  calls := by
    rw [callbacks_append]
    refine h.calls.append ?_
    have hturn := congrArg List.length h.delivered_eq
    rw [List.length_append, List.length_map] at hturn
    exact hturn ▸ h'.calls

def State.arrived (state : State) (batch : Batch) : State :=
  { state with session := { state.session with files := (batch.arrive state.session.files).1 } }

theorem calls_arrived (setup : Setup) (state : State) (batch : Batch) :
    setup.CallsBack state.delivered.length state.session [] (state.arrived batch).session := by
  have h : setup.CallsBack state.delivered.length state.session [] _ :=
    .nil (batch.arrive state.session.files).1 []
  rwa [List.append_nil] at h

theorem delivers_deliver (setup : Setup) (state : State) (batch : Batch) :
    setup.Delivers state [⟨(batch.arrive state.session.files).1, batch.paths⟩]
      (setup.deliver (state.arrived batch) batch.paths).1 := by
  rcases deliver_cases setup (state.arrived batch) batch.paths with
    ⟨hn, hd⟩ | ⟨hn, called, log, failure, rfl, hd, -⟩
  · rw [hd]
    exact ⟨rfl, by rw [callbacks_cons_of_nil hn]; exact (List.append_nil _).symm,
      by rw [callbacks_cons_of_nil hn]; exact calls_arrived setup state batch⟩
  · rw [hd]
    refine ⟨rfl, by rw [callbacks_cons_of_ne_nil hn]; rfl, ?_⟩
    rw [callbacks_cons_of_ne_nil hn, callbacks_nil]
    refine .cons [] ?_
    rw [List.append_nil]
    exact .quiet setup _ _ log

theorem files_deliver (hs : setup.LeavesFiles) (state : State) (paths : List Path) :
    (setup.deliver state paths).1.session.files = state.session.files := by
  rcases deliver_cases setup state paths with ⟨-, hd⟩ | ⟨-, called, log, failure, rfl, hd, -⟩
  · rw [hd]
  · rw [hd]
    exact hs _ _ _

/-- Only an interruption of the callback ends the task. -/
theorem deliver_snd (setup : Setup) (state : State) (paths : List Path) :
    (setup.deliver state paths).2 = none ∨
      (setup.deliver state paths).2 = some .interrupted ∧ ¬setup.Steady := by
  rcases deliver_cases setup state paths with
    ⟨-, hd⟩ | ⟨-, called, log, failure, rfl, hd, hn | ⟨hf, hc⟩⟩
  · exact Or.inl (congrArg Prod.snd hd)
  · exact Or.inl ((congrArg Prod.snd hd).trans hn)
  · exact Or.inr ⟨(congrArg Prod.snd hd).trans hf, fun hs => hs.uninterrupted _ _ _ hc⟩

theorem consume_of_none (h : (batch.arrive state.session.files).2 = none)
    (hd : (setup.deliver (state.arrived batch) batch.paths).2 = none) :
    setup.consume state (batch :: queue) =
      setup.consume (setup.deliver (state.arrived batch) batch.paths).1 queue := by
  cases batch with
  | failing failure => cases h
  | changes edits paths =>
    have hn : (state.session.files.applyAll edits).2 = none := Option.map_eq_none_iff.mp h
    rw [Setup.consume]
    split
    · next he => simp [he] at hn
    · next he =>
      simp only [State.arrived, arrive, he, Batch.paths] at hd ⊢
      split
      · next hf => simp [hf] at hd
      · next hf => rw [hf]

theorem consume_of_interrupted {failure : Failure}
    (h : (batch.arrive state.session.files).2 = none)
    (hd : (setup.deliver (state.arrived batch) batch.paths).2 = some failure) :
    setup.consume state (batch :: queue) =
      { (setup.deliver (state.arrived batch) batch.paths).1 with
        queue, phase := .failed failure } := by
  cases batch with
  | failing failure => cases h
  | changes edits paths =>
    have hn : (state.session.files.applyAll edits).2 = none := Option.map_eq_none_iff.mp h
    rw [Setup.consume]
    split
    · next he => simp [he] at hn
    · next he =>
      simp only [State.arrived, arrive, he, Batch.paths] at hd ⊢
      split
      · next hf =>
        rw [hf] at hd ⊢
        rw [Option.some.inj hd]
      · next hf => simp [hf] at hd

theorem consume_of_some {failure : Failure}
    (h : (batch.arrive state.session.files).2 = some failure) :
    setup.consume state (batch :: queue) =
      { state.arrived batch with queue, phase := .failed failure } := by
  cases batch with
  | failing other =>
    obtain rfl := Option.some.inj h
    rfl
  | changes edits paths =>
    obtain ⟨error, he, rfl⟩ := Option.map_eq_some_iff.mp h
    rw [Setup.consume]
    split
    · next hp =>
      obtain rfl : error = _ := Option.some.inj (he.symm.trans (congrArg Prod.snd hp))
      simp only [State.arrived, arrive, hp]
    · next hp => simp [hp] at he

def Phase.ended : (failures : List Failure) → Phase
  | [] => .finished
  | failure :: _ => .failed failure

/-- What the batches account for that one stream has taken from a queue. Behind them the queue is
empty, unless the stream failed of the last or the callback for it was interrupted. -/
structure Setup.Streams (setup : Setup) (state : State) (queue batches : List Batch)
    (state' : State) : Prop extends
    setup.Delivers state (notices state.session.files batches) state' where
  queue_eq : queue = batches ++ state'.queue
  files_eq : state'.session.files = filesAfter state.session.files batches
  length_failures : (failures state.session.files batches).length ≤ 1
  ended : state'.phase = .ended (failures state.session.files batches) ∧
      (failures state.session.files batches = [] → state'.queue = []) ∨
    state'.phase = .failed .interrupted ∧ failures state.session.files batches = [] ∧ ¬setup.Steady
  taken_eq : setup.Steady → batches = taken state.session.files queue

theorem streams_of_some {failure : Failure}
    (h : (batch.arrive state.session.files).2 = some failure) :
    setup.Streams state (batch :: queue) [batch] (setup.consume state (batch :: queue)) := by
  have hnone : notices state.session.files [batch] = [] := by simp [notices, h]
  have hfail : failures state.session.files [batch] = [failure] := by simp [failures, h]
  rw [consume_of_some h]
  constructor
  case toDelivers =>
    rw [hnone]
    exact ⟨rfl, (List.append_nil _).symm, calls_arrived setup state batch⟩
  case queue_eq => rfl
  case files_eq => rfl
  case length_failures => rw [hfail, List.length_singleton]
  case ended =>
    rw [hfail]
    exact Or.inl ⟨rfl, fun hn => absurd hn (List.cons_ne_nil _ _)⟩
  case taken_eq => exact fun _ => (taken_cons_of_some h).symm

section Delivered

variable (h : (batch.arrive state.session.files).2 = none) (hs : setup.LeavesFiles)
include h hs

theorem streams_of_interrupted {failure : Failure}
    (hd : (setup.deliver (state.arrived batch) batch.paths).2 = some failure) :
    setup.Streams state (batch :: queue) [batch] (setup.consume state (batch :: queue)) := by
  have hdelivers := delivers_deliver setup state batch
  have hone : notices state.session.files [batch] =
      [⟨(batch.arrive state.session.files).1, batch.paths⟩] := by simp [notices, h]
  have hfailures : failures state.session.files [batch] = [] := by simp [failures, h]
  have ⟨hf, hsteady⟩ : failure = .interrupted ∧ ¬setup.Steady := by
    rcases deliver_snd setup (state.arrived batch) batch.paths with hn | ⟨hi, hsteady⟩
    · cases hd.symm.trans hn
    · exact ⟨Option.some.inj (hd.symm.trans hi), hsteady⟩
  rw [consume_of_interrupted h hd]
  constructor
  case toDelivers =>
    rw [hone]
    exact ⟨hdelivers.opened_eq, hdelivers.delivered_eq, hdelivers.calls⟩
  case queue_eq => rfl
  case files_eq => exact files_deliver hs _ _
  case length_failures =>
    rw [hfailures]
    exact Nat.zero_le 1
  case ended => exact Or.inr ⟨by rw [hf], hfailures, hsteady⟩
  case taken_eq => exact fun hs => absurd hs hsteady

/-- A batch that is delivered comes before those that are taken after it. -/
theorem Setup.Streams.cons {state' : State}
    (hstreams : setup.Streams (setup.deliver (state.arrived batch) batch.paths).1 queue batches
      state') :
    setup.Streams state (batch :: queue) (batch :: batches) state' := by
  have hfiles : (setup.deliver (state.arrived batch) batch.paths).1.session.files =
      (batch.arrive state.session.files).1 := files_deliver hs _ _
  have hnotices : notices state.session.files (batch :: batches) =
      [⟨(batch.arrive state.session.files).1, batch.paths⟩] ++
        notices (batch.arrive state.session.files).1 batches := by simp [notices, h]
  have hfailures : failures state.session.files (batch :: batches) =
      failures (batch.arrive state.session.files).1 batches := by simp [failures, h]
  obtain ⟨hrest, hqueue, hafter, hlength, hended, htaken⟩ := hstreams
  rw [hfiles] at hrest hafter hlength hended htaken
  constructor
  case toDelivers =>
    rw [hnotices]
    exact (delivers_deliver setup state batch).append hrest
  case queue_eq => rw [List.cons_append, ← hqueue]
  case files_eq => exact hafter
  case length_failures => rwa [hfailures]
  case ended => rwa [hfailures]
  case taken_eq => exact fun hs => by rw [taken_cons_of_none h, htaken hs]

end Delivered

theorem exists_streams (hs : setup.LeavesFiles) (state : State) (queue : List Batch) :
    ∃ batches, setup.Streams state queue batches (setup.consume state queue) := by
  induction queue generalizing state with
  | nil =>
    exact ⟨[], ⟨rfl, (List.append_nil _).symm, .refl setup _ _⟩, rfl, rfl, Nat.zero_le 1,
      Or.inl ⟨rfl, fun _ => rfl⟩, fun _ => rfl⟩
  | cons batch rest ih =>
    cases h : (batch.arrive state.session.files).2 with
    | some failure => exact ⟨[batch], streams_of_some h⟩
    | none =>
      cases hd : (setup.deliver (state.arrived batch) batch.paths).2 with
      | some failure => exact ⟨[batch], streams_of_interrupted h hs hd⟩
      | none =>
        obtain ⟨batches, hstreams⟩ := ih (setup.deliver (state.arrived batch) batch.paths).1
        rw [consume_of_none h hd]
        exact ⟨batch :: batches, hstreams.cons h hs⟩

theorem streams_of_steady (hs : setup.Steady) (state : State) (queue : List Batch) :
    setup.Streams state queue (taken state.session.files queue) (setup.consume state queue) := by
  obtain ⟨batches, hstreams⟩ := exists_streams hs.leavesFiles state queue
  exact hstreams.taken_eq hs ▸ hstreams

theorem Setup.Streams.phase_eq {state' : State} (h : setup.Streams state queue batches state')
    (hs : setup.Steady) : state'.phase = .ended (failures state.session.files batches) := by
  rcases h.ended with ⟨hphase, -⟩ | ⟨-, -, hn⟩
  · exact hphase
  · exact absurd hs hn

/-! ## Calls -/

def Phase.heeds : Phase → Call → Bool
  | .idle, .start | .pending, .stop | .pending, .wait | .finished, .stop => true
  | _, _ => false

inductive Setup.Steps (setup : Setup) (state : State) : Call → State → Prop
  | start : state.phase = .idle → Steps setup state .start { state with
      phase := .pending, session := state.session.emit (.watchStarted setup.directory) }
  | stop : state.phase = .pending ∨ state.phase = .finished → Steps setup state .stop { state with
      phase := .idle, session := state.session.emit (.watchStopped setup.directory) }
  | wait : state.phase = .pending → Steps setup state .wait
      (setup.consume { state with opened := state.opened ++ [setup.directory] } state.queue)
  | stay {call} : state.phase.heeds call = false → Steps setup state call state

theorem steps (setup : Setup) (state : State) (call : Call) :
    setup.Steps state call (setup.call state call).1 := by
  cases call <;> cases hp : state.phase <;>
    simp only [Setup.call, Setup.start, Setup.stop, Setup.wait, hp]
  case start.idle => exact .start hp
  case stop.pending => exact .stop (Or.inl hp)
  case stop.finished => exact .stop (Or.inr hp)
  case wait.pending =>
    rw [← hp]
    exact .wait hp
  all_goals exact .stay (by rw [hp]; rfl)

def State.takes (state : State) : Call → List Batch
  | .wait => if state.phase = .pending then taken state.session.files state.queue else []
  | _ => []

theorem takes_of_not_heeds {call : Call} (h : state.phase.heeds call = false) :
    state.takes call = [] := by
  cases call with
  | start | stop => rfl
  | wait =>
    refine if_neg fun hp => ?_
    rw [hp] at h
    cases h

/-- The batches that calls take from the queue, one after the other. -/
def Setup.consumed (setup : Setup) (state : State) : List Call → List Batch
  | [] => []
  | call :: rest => state.takes call ++ setup.consumed (setup.call state call).1 rest

def Phase.failures : Phase → List Failure
  | .failed failure => [failure]
  | _ => []

/-- What the batches that were taken from a queue account for: the rest of the queue, the files, the
callbacks and the failure that is held, unless that is an interruption of a callback. Once a stream
has begun, nothing stays behind but what stands behind a failure. -/
structure Progress (setup : Setup) (s : Session) (queue consumed : List Batch) (state : State) :
    Prop where
  queue_eq : queue = consumed ++ state.queue
  files_eq : state.session.files = filesAfter s.files consumed
  delivered_eq : state.delivered = (setup.callbacks (notices s.files consumed)).map (·.paths)
  calls : setup.CallsBack 0 s (setup.callbacks (notices s.files consumed)) state.session
  failures_eq : state.phase.failures = failures s.files consumed ∨
    state.phase.failures = [.interrupted] ∧ failures s.files consumed = [] ∧ ¬setup.Steady
  begun : state.opened = [] → consumed = []
  ended : state.opened ≠ [] → state.queue = [] ∨ state.phase.failures ≠ []

theorem progress_initial (setup : Setup) (s : Session) (queue : List Batch) :
    Progress setup s queue [] (.initial s queue) :=
  ⟨rfl, rfl, rfl, .refl setup 0 s, Or.inl rfl, fun _ => rfl, fun h => absurd rfl h⟩

theorem failures_ended {failures : List Failure} (h : failures.length ≤ 1) :
    (Phase.ended failures).failures = failures := by
  cases failures with
  | nil => rfl
  | cons failure rest =>
    obtain rfl : rest = [] := List.length_eq_zero_iff.mp (Nat.le_zero.mp (Nat.le_of_succ_le_succ h))
    rfl

theorem Progress.failures_of_steady (h : Progress setup s queue batches state)
    (hs : setup.Steady) : failures s.files batches = state.phase.failures := by
  rcases h.failures_eq with hf | ⟨-, -, hn⟩
  · exact hf.symm
  · exact absurd hs hn

theorem Progress.failures_eq_nil (h : Progress setup s queue batches state)
    (hp : state.phase.failures = []) : failures s.files batches = [] := by
  rcases h.failures_eq with hf | ⟨-, hn, -⟩
  · exact hf.symm.trans hp
  · exact hn

/-- A stream takes up where the batches before it ended: a pending task has met no failure. -/
theorem Progress.wait (hs : setup.LeavesFiles) (h : Progress setup s queue batches state)
    (hp : state.phase = .pending) :
    ∃ more, Progress setup s queue (batches ++ more)
        (setup.consume { state with opened := state.opened ++ [setup.directory] } state.queue) ∧
      (setup.Steady → more = taken state.session.files state.queue) := by
  obtain ⟨more, hstreams⟩ := exists_streams hs
    { state with opened := state.opened ++ [setup.directory] } state.queue
  generalize setup.consume { state with opened := state.opened ++ [setup.directory] } state.queue =
    state' at hstreams
  obtain ⟨⟨hopened, hdelivered, hcalls⟩, hqueue, hfiles, hlength, hended, htaken⟩ := hstreams
  dsimp only at hopened hdelivered hcalls hqueue hfiles hlength hended htaken
  have hnone : failures s.files batches = [] := h.failures_eq_nil (by rw [hp]; rfl)
  have hf : failures s.files (batches ++ more) = failures state.session.files more := by
    rw [failures_append, hnone, ← h.files_eq, List.nil_append]
  have hnotices : setup.callbacks (notices s.files (batches ++ more)) =
      setup.callbacks (notices s.files batches) ++
        setup.callbacks (notices state.session.files more) := by
    rw [notices_append, callbacks_append, ← h.files_eq]
  refine ⟨more, ⟨?_, ?_, ?_, ?_, ?_, ?_, fun _ => ?_⟩, htaken⟩
  · rw [List.append_assoc, ← hqueue, ← h.queue_eq]
  · rw [hfiles, filesAfter_append, ← h.files_eq]
  · rw [hdelivered, hnotices, List.map_append, ← h.delivered_eq]
  · rw [hnotices]
    refine h.calls.append ?_
    have hturn := congrArg List.length h.delivered_eq
    rw [List.length_map] at hturn
    rwa [Nat.zero_add, ← hturn]
  · rw [hf]
    rcases hended with ⟨hphase, -⟩ | ⟨hphase, hn, hsteady⟩
    · exact Or.inl (by rw [hphase, failures_ended hlength])
    · exact Or.inr ⟨by rw [hphase]; rfl, hn, hsteady⟩
  · rw [hopened]
    simp
  · rcases hended with ⟨hphase, hrest⟩ | ⟨hphase, -⟩
    · rw [hphase, failures_ended hlength]
      exact or_iff_not_imp_right.mpr fun hn => hrest (not_not.mp hn)
    · exact Or.inr (by rw [hphase]; exact List.cons_ne_nil _ _)

theorem Progress.call (hs : setup.LeavesFiles) (h : Progress setup s queue batches state)
    (call : Call) :
    ∃ more, Progress setup s queue (batches ++ more) (setup.call state call).1 ∧
      (setup.Steady → more = state.takes call) := by
  have hstep := steps setup state call
  generalize (setup.call state call).1 = state' at hstep
  cases hstep with
  | start hp =>
    have hf := h.failures_eq
    have he := h.ended
    rw [hp] at hf he
    refine ⟨[], ?_, fun _ => rfl⟩
    rw [List.append_nil]
    exact ⟨h.queue_eq, h.files_eq, h.delivered_eq, h.calls.emit _, hf,
      h.begun, he⟩
  | stop hp =>
    have hidle : state.phase.failures = [] := by rcases hp with hp | hp <;> rw [hp] <;> rfl
    have hf := h.failures_eq
    have he := h.ended
    rw [hidle] at hf he
    refine ⟨[], ?_, fun _ => rfl⟩
    rw [List.append_nil]
    exact ⟨h.queue_eq, h.files_eq, h.delivered_eq, h.calls.emit _, hf,
      h.begun, he⟩
  | stay hp =>
    refine ⟨[], ?_, fun _ => (takes_of_not_heeds hp).symm⟩
    rwa [List.append_nil]
  | wait hp =>
    rw [State.takes, if_pos hp]
    exact h.wait hs hp

theorem Progress.calls_of (hs : setup.LeavesFiles) (h : Progress setup s queue batches state)
    (calls : List Call) :
    ∃ more, Progress setup s queue (batches ++ more) (setup.calls state calls).1 ∧
      (setup.Steady → more = setup.consumed state calls) := by
  induction calls generalizing state batches with
  | nil =>
    refine ⟨[], ?_, fun _ => rfl⟩
    rwa [List.append_nil]
  | cons call rest ih =>
    obtain ⟨first, hfirst, htakes⟩ := h.call hs call
    obtain ⟨second, hsecond, hconsumed⟩ := ih hfirst
    refine ⟨first ++ second, ?_, fun hsteady => ?_⟩
    · rwa [← List.append_assoc]
    · rw [Setup.consumed, htakes hsteady, hconsumed hsteady]

/-- What any calls have made of a new watcher. -/
theorem exists_progress (hs : setup.LeavesFiles) (s : Session) (queue : List Batch)
    (calls : List Call) :
    ∃ batches, Progress setup s queue batches (setup.calls (.initial s queue) calls).1 ∧
      (setup.Steady → batches = setup.consumed (.initial s queue) calls) :=
  (progress_initial setup s queue).calls_of hs calls

theorem progress_of_calls (hs : setup.Steady) (s : Session) (queue : List Batch)
    (calls : List Call) :
    Progress setup s queue (setup.consumed (.initial s queue) calls)
      (setup.calls (.initial s queue) calls).1 := by
  obtain ⟨batches, hp, hb⟩ := exists_progress hs.leavesFiles s queue calls
  exact hb hs ▸ hp

/-! ## The callback of a watched catalog -/

theorem steady_of_react {name : String} {reaction : Reaction} {fails : List Bool}
    (h : setup.callback = Session.react name reaction fails) : setup.Steady := by
  constructor
  case leavesFiles =>
    intro turn paths s
    rw [h]
    unfold Session.react
    split_ifs
    · rfl
    · cases reaction with
      | record => rfl
      | refresh =>
        dsimp only
        unfold Session.withCatalog
        split
        · exact Session.files_refreshEach s _ _
        · rfl
  case uninterrupted =>
    intro turn paths s hi
    rw [h] at hi
    unfold Session.react at hi
    split_ifs at hi
    · cases hi
    · cases reaction with
      | record => cases hi
      | refresh =>
        dsimp only at hi
        unfold Session.withCatalog at hi
        split at hi
        · exact Session.refreshEach_uninterrupted s _ _ hi
        · cases hi

end Watcher

end SourceAtlas
