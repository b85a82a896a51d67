import Mathlib
import SourceAtlas.Proofs.Watcher.Abreast

/-! # Delivery of changes

Whatever the order in which a watcher is started, stopped and waited for, each batch that its
streams take is handed on once, in the order of the queue and with the set of its watched paths, if
it has any. How a callback ends has no influence on what the next one is called for.
-/

namespace SourceAtlas.Watcher

open Batch

variable {setup : Setup} {state next : State} {paths : List Path} {path : Path}

theorem mem_hits : path ∈ setup.hits paths ↔ path ∈ paths ∧ accepts setup.extensions path := by
  rw [Setup.hits, Path.mem_sorted, List.mem_filter]

def Setup.watches (setup : Setup) (notice : Notice) : Bool :=
  notice.paths.any (accepts setup.extensions)

theorem hits_eq_nil_iff {notice : Notice} :
    setup.hits notice.paths = [] ↔ ¬setup.watches notice := by
  simp [List.eq_nil_iff_forall_not_mem, mem_hits, Setup.watches]

/-- Each of the notices that have a watched path is handed on once, in their order: with the files
as they are, and with the set of its watched paths, ordered by their components. -/
def Setup.HandsOn (setup : Setup) (notices handed : List Notice) : Prop :=
  List.Forall₂ (fun notice hand => hand.files = notice.files ∧ hand.paths.Nodup ∧
      hand.paths.Pairwise (fun a b => a.sortKey ≤ b.sortKey) ∧
      ∀ path, path ∈ hand.paths ↔ path ∈ notice.paths ∧ accepts setup.extensions path)
    (notices.filter setup.watches) handed

theorem handsOn_callbacks (setup : Setup) (notices : List Notice) :
    setup.HandsOn notices (setup.callbacks notices) := by
  induction notices with
  | nil => exact .nil
  | cons notice rest ih =>
    rw [Setup.HandsOn]
    by_cases h : setup.hits notice.paths = []
    · rw [List.filter_cons_of_neg (hits_eq_nil_iff.mp h), callbacks_cons_of_nil h]
      exact ih
    · rw [List.filter_cons_of_pos (not_not.mp (hits_eq_nil_iff.not.mp h)),
        callbacks_cons_of_ne_nil h]
      exact .cons ⟨rfl, Path.nodup_sorted _, Path.pairwise_sorted _, fun _ => mem_hits⟩ ih

/-- The second state is the first after a new stream, which went on with the queue and has handed on
what it took, up to its end or up to a failure: the callback was called for it. -/
def Setup.Resumes (setup : Setup) (state next : State) : Prop :=
  next.opened = state.opened ++ [setup.directory] ∧
    ∃ batches handed, state.queue = batches ++ next.queue ∧
      (next.queue = [] ∨ next.phase.failures ≠ []) ∧
      (setup.Steady → next.phase.failures = failures state.session.files batches) ∧
      setup.HandsOn (notices state.session.files batches) handed ∧
      setup.CallsBack state.delivered.length state.session handed next.session ∧
      next.delivered = state.delivered ++ handed.map (·.paths)

theorem resumes_of_pending (hs : setup.LeavesFiles) (h : state.phase = .pending) :
    setup.Resumes state (setup.call state .wait).1 := by
  have hw : (setup.call state .wait).1 =
      setup.consume { state with opened := state.opened ++ [setup.directory] } state.queue := by
    simp only [Setup.call, Setup.wait, h]
  obtain ⟨batches, hstreams⟩ :=
    exists_streams hs { state with opened := state.opened ++ [setup.directory] } state.queue
  rw [← hw] at hstreams
  refine ⟨hstreams.opened_eq, batches, _, hstreams.queue_eq, ?_, fun hsteady => ?_,
    handsOn_callbacks setup _, hstreams.calls, hstreams.delivered_eq⟩
  · rcases hstreams.ended with ⟨hphase, hrest⟩ | ⟨hphase, -⟩
    · rw [hphase, failures_ended hstreams.length_failures]
      exact or_iff_not_imp_right.mpr fun hn => hrest (not_not.mp hn)
    · exact Or.inr (by rw [hphase]; exact List.cons_ne_nil _ _)
  · rw [hstreams.phase_eq hsteady, failures_ended hstreams.length_failures]

theorem stop_of_failures_eq_nil (setup : Setup) (h : state.phase.failures = []) :
    ∃ log, setup.call state .stop = ({ state with
      session := { state.session with log := state.session.log ++ log }
      phase := .idle }, .ok ()) := by
  cases hp : state.phase with
  | idle =>
    refine ⟨[], ?_⟩
    simp only [Setup.call, Setup.stop, hp, Phase.outcome, List.append_nil]
    rw [← hp]
  | pending | finished =>
    exact ⟨[.watchStopped setup.directory],
      by simp only [Setup.call, Setup.stop, hp, Phase.outcome]; rfl⟩
  | failed failure =>
    rw [hp] at h
    cases h

/-- After a stop that gives up the task, a stream that is begun goes on where the last one ended. -/
theorem resumes_of_stop (hs : setup.LeavesFiles) (h : state.phase.failures = []) :
    setup.Resumes state (setup.calls state [.stop, .start, .wait]).1 := by
  obtain ⟨log, hstop⟩ := stop_of_failures_eq_nil setup h
  have hstart : (setup.call (setup.call state .stop).1 .start).1 = { state with
      phase := .pending
      session := { state.session with
        log := state.session.log ++ (log ++ [.watchStarted setup.directory]) } } := by
    rw [hstop, ← List.append_assoc]
    rfl
  have hp : (setup.call (setup.call state .stop).1 .start).1.phase = .pending := by rw [hstart]
  have hc : (setup.calls state [.stop, .start, .wait]).1 =
      (setup.call (setup.call (setup.call state .stop).1 .start).1 .wait).1 := rfl
  rw [hc]
  have hr := resumes_of_pending hs hp
  generalize (setup.call (setup.call (setup.call state .stop).1 .start).1 .wait).1 = next at hr ⊢
  rw [hstart] at hr
  obtain ⟨hopened, batches, handed, hqueue, hended, hfailures, hhands, hcalls, hdelivered⟩ := hr
  exact ⟨hopened, batches, handed, hqueue, hended, hfailures, hhands, hcalls.of_quiet, hdelivered⟩

/-- A call that comes while it is not heeded might as well not have been made. -/
theorem calls_cons_of_not_heeds {call : Call} (h : state.phase.heeds call = false)
    (later : List Call) : (setup.calls state (call :: later)).1 = (setup.calls state later).1 := by
  have hstep := steps setup state call
  change (setup.calls (setup.call state call).1 later).1 = _
  generalize (setup.call state call).1 = state' at hstep
  cases hstep with
  | start hp | wait hp => simp [hp, Phase.heeds] at h
  | stop hp => rcases hp with hp | hp <;> simp [hp, Phase.heeds] at h
  | stay => rfl

/-- Under any calls, the batches that streams have taken are the beginning of the queue. The callback
is called once for each of them that has a watched path, in their order and with the set of these
paths, and for no other, and nothing but its calls makes more of the session than other files and
entries of the log. Once a stream has begun, nothing stays behind but what stands behind a failure. A
stop before the task ran takes nothing from the queue, and the next stream delivers it; a start while
a task is held changes nothing. Of callbacks that are not interrupted it makes no difference which
fail: any other is called for the same, and the watcher is running after the same calls. -/
theorem delivered_of_calls (hs : setup.LeavesFiles) (s : Session) (queue : List Batch)
    (calls : List Call) :
    let run := setup.calls (.initial s queue) calls
    let state := run.1
    (∃ batches handed, queue = batches ++ state.queue ∧
      setup.HandsOn (notices s.files batches) handed ∧ setup.CallsBack 0 s handed state.session ∧
      state.delivered = handed.map (·.paths) ∧
      (state.opened = [] → batches = []) ∧
      (state.opened ≠ [] → state.queue = [] ∨ state.phase.failures ≠ []) ∧
      (setup.Steady → state.phase.failures = failures s.files batches)) ∧
    (state.phase = .pending →
      (setup.call state .stop).1.queue = state.queue ∧
        (setup.call state .stop).1.delivered = state.delivered ∧
        setup.Resumes state (setup.calls state [.stop, .start, .wait]).1) ∧
    (state.phase ≠ .idle → ∀ later,
      (setup.calls state (.start :: later)).1 = (setup.calls state later).1) ∧
    (setup.Steady → ∀ other : Setup, other.Steady → other.directory = setup.directory →
      other.extensions = setup.extensions →
        let run' := other.calls (.initial s queue) calls
        run'.2.map (·.isRunning) = run.2.map (·.isRunning) ∧
        run'.1.delivered = state.delivered ∧
        ∃ handed, handed.map (·.paths) = state.delivered ∧
          setup.CallsBack 0 s handed state.session ∧ other.CallsBack 0 s handed run'.1.session) := by
  intro run state
  obtain ⟨batches, hp, -⟩ := exists_progress hs s queue calls
  refine ⟨⟨batches, _, hp.queue_eq, handsOn_callbacks setup _, hp.calls, hp.delivered_eq, hp.begun,
    hp.ended, fun hsteady => (hp.failures_of_steady hsteady).symm⟩,
    fun hpending => ?_, fun hheld later => ?_, fun hsteady other ho hd he => ?_⟩
  · have hf : state.phase.failures = [] := by rw [hpending]; rfl
    obtain ⟨log, hstop⟩ := stop_of_failures_eq_nil setup hf
    rw [hstop]
    exact ⟨rfl, rfl, resumes_of_stop hs hf⟩
  · refine calls_cons_of_not_heeds ?_ later
    cases hc : state.phase with
    | idle => exact absurd hc hheld
    | pending | finished | failed => rfl
  · have hab := abreast_initial id s queue
    rw [List.map_id] at hab
    have hp := progress_of_calls hsteady s queue calls
    have hq := progress_of_calls ho s queue calls
    rw [hab.consumed keepsArrivals_id hsteady ho hd, List.map_id] at hq
    have hhits : other.callbacks = setup.callbacks := by
      unfold Setup.callbacks Setup.hits
      rw [he]
    have hcalls := hq.calls
    have hdelivered := hq.delivered_eq
    rw [hhits] at hcalls hdelivered
    exact ⟨hab.map_isRunning keepsArrivals_id hsteady ho hd calls,
      hdelivered.trans hp.delivered_eq.symm, _, hp.delivered_eq.symm, hp.calls, hcalls⟩

def tripping : Setup where
  directory := ⟨.here, ["d"]⟩
  extensions := ["js"]
  callback := Session.react "w" .record [true]

/-- A batch with a path that is not watched and one that is reported twice, one that has no watched
path, a failure, and a batch behind it. -/
def mixedQueue : List Batch :=
  [.changes [] [⟨.here, ["d", "b.js"]⟩, ⟨.here, ["d", "a.md"]⟩, ⟨.here, ["d", "b.js"]⟩],
    .changes [] [⟨.here, ["d", "a.md"]⟩], .failing (.raised "gone"),
    .changes [] [⟨.here, ["d", "c.js"]⟩]]

theorem delivered_of_mixedQueue :
    let s := Session.start .empty []
    let held := (tripping.calls (.initial s mixedQueue) [.start, .stop, .start]).1
    let last := (tripping.calls (.initial s mixedQueue) [.start, .stop, .start, .wait]).1
    tripping.Steady ∧ held.phase = .pending ∧
      tripping.Resumes held (tripping.calls held [.stop, .start, .wait]).1 ∧
      last.delivered = [[⟨.here, ["d", "b.js"]⟩]] ∧
      ∃ batches handed, mixedQueue = batches ++ [.changes [] [⟨.here, ["d", "c.js"]⟩]] ∧
        tripping.HandsOn (notices .empty batches) handed ∧
        tripping.CallsBack 0 s handed last.session ∧
        [[⟨.here, ["d", "b.js"]⟩]] = handed.map (·.paths) := by
  intro s held last
  have hc : tripping.callback = Session.react "w" .record [true] := rfl
  have hs := steady_of_react hc
  have hp : (tripping.calls (.initial (Session.start .empty []) mixedQueue)
      [.start, .stop, .start]).1.phase = .pending := by cbv
  have hd : (tripping.calls (.initial (Session.start .empty []) mixedQueue)
      [.start, .stop, .start, .wait]).1.delivered = [[⟨.here, ["d", "b.js"]⟩]] := by cbv
  have hq : (tripping.calls (.initial (Session.start .empty []) mixedQueue)
      [.start, .stop, .start, .wait]).1.queue = [.changes [] [⟨.here, ["d", "c.js"]⟩]] := by cbv
  obtain ⟨-, hresumes, -⟩ :=
    delivered_of_calls hs.leavesFiles (Session.start .empty []) mixedQueue [.start, .stop, .start]
  obtain ⟨⟨batches, handed, hbatches, hhands, hcalls, hhanded, -⟩, -⟩ := delivered_of_calls
    hs.leavesFiles (Session.start .empty []) mixedQueue [.start, .stop, .start, .wait]
  rw [hq] at hbatches
  rw [hd] at hhanded
  exact ⟨hs, hp, (hresumes hp).2.2, hd, batches, handed, hbatches, hhands, hcalls, hhanded⟩

end SourceAtlas.Watcher
