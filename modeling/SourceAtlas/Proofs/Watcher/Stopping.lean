import Mathlib
import SourceAtlas.Proofs.Watcher.Delivery

/-! # Stopping a watcher

A stop gives up the task unless the stream of the task has failed. A failed task is held for good:
whatever is called for after that raises its failure or does nothing, and what is left in the queue
is never delivered.
-/

namespace SourceAtlas.Watcher

open Batch

variable {setup : Setup} {state : State} {failure : Failure}

/-- A watcher that holds a failed task stays as it is. -/
theorem calls_of_failed (h : state.phase = .failed failure) (later : List Call) :
    (setup.calls state later).1 = state := by
  induction later with
  | nil => rfl
  | cons call rest ih =>
    have hn : state.phase.heeds call = false := by
      rw [h]
      cases call <;> rfl
    rw [calls_cons_of_not_heeds hn, ih]

/-- After any calls, a stop returns, gives up the task and lets the next stream go on with what is
left in the queue, provided that no task holds a failure. Otherwise the stop raises the failure, and
the watcher keeps the task under whatever calls follow. The failure that is held is that of a stream
with what was taken from the queue, or an interruption of the callback. -/
theorem stop_of_calls (hs : setup.LeavesFiles) (s : Session) (queue : List Batch)
    (calls : List Call) :
    let state := (setup.calls (.initial s queue) calls).1
    ∃ batches, queue = batches ++ state.queue ∧
      (state.phase.failures = failures s.files batches ∨
        state.phase.failures = [.interrupted] ∧ failures s.files batches = [] ∧ ¬setup.Steady) ∧
      (state.phase.failures = [] →
        (setup.call state .stop).2 = .ok () ∧ (setup.call state .stop).1.phase = .idle ∧
        setup.Resumes state (setup.calls state [.stop, .start, .wait]).1) ∧
      (state.phase.failures ≠ [] → ∃ failure, state.phase = .failed failure ∧
        (setup.call state .stop).2 = .error failure ∧
        ∀ later, (setup.calls state later).1 = state) := by
  intro state
  obtain ⟨batches, hp, -⟩ := exists_progress hs s queue calls
  refine ⟨batches, hp.queue_eq, hp.failures_eq, fun hn => ?_, fun hf => ?_⟩
  · obtain ⟨log, hstop⟩ := stop_of_failures_eq_nil setup hn
    rw [hstop]
    exact ⟨rfl, rfl, resumes_of_stop hs hn⟩
  · cases hc : state.phase with
    | idle | pending | finished => exact absurd (by rw [hc]; rfl) hf
    | failed failure =>
      refine ⟨failure, rfl, ?_, calls_of_failed hc⟩
      simp only [Setup.call, hc, Phase.outcome]

/-- A watcher whose stream is lost, with a batch behind. -/
def lost : State :=
  .initial (Session.start .empty [])
    [.failing (.raised "gone"), .changes [] [⟨.here, ["d", "c.js"]⟩]]

def noting : Setup where
  directory := ⟨.here, ["d"]⟩
  extensions := ["js"]
  callback := Session.react "w" .record []

theorem stop_of_noting :
    let started := (noting.calls lost [.start]).1
    let failed := (noting.calls lost [.start, .wait]).1
    noting.LeavesFiles ∧
      noting.Resumes started (noting.calls started [.stop, .start, .wait]).1 ∧
      (noting.call failed .stop).2 = .error (.raised "gone") ∧
      ∀ later, (noting.calls failed later).1 = failed := by
  intro started failed
  have hc : noting.callback = Session.react "w" .record [] := rfl
  have hs := (steady_of_react hc).leavesFiles
  have hstarted : (noting.calls lost [.start]).1.phase = .pending := by cbv
  have hfailed : (noting.calls lost [.start, .wait]).1.phase = .failed (.raised "gone") := by cbv
  obtain ⟨_, -, -, hresumes, -⟩ :=
    stop_of_calls hs (Session.start .empty []) lost.queue [.start]
  obtain ⟨_, -, -, -, hkept⟩ :=
    stop_of_calls hs (Session.start .empty []) lost.queue [.start, .wait]
  have hidle : (noting.calls lost [.start]).1.phase.failures = [] := by rw [hstarted]; rfl
  have hheld : (noting.calls lost [.start, .wait]).1.phase.failures ≠ [] := by
    rw [hfailed]
    exact List.cons_ne_nil _ _
  obtain ⟨failure, hfailure, hstop, hlater⟩ := hkept hheld
  obtain rfl := Phase.failed.inj (hfailed.symm.trans hfailure)
  exact ⟨hs, (hresumes hidle).2.2, hstop, hlater⟩

/-- A stop may leave the watcher with its task, and then no call begins another stream. -/
theorem stop_of_lost :
    let stopped := (noting.calls lost [.start, .wait, .stop]).1
    stopped.phase ≠ .idle ∧ stopped.queue ≠ [] ∧
      ¬noting.Resumes stopped (noting.calls stopped [.start, .wait]).1 := by
  intro stopped
  have hphase : (noting.calls lost [.start, .wait, .stop]).1.phase =
      .failed (.raised "gone") := by cbv
  have hqueue : (noting.calls lost [.start, .wait, .stop]).1.queue =
      [.changes [] [⟨.here, ["d", "c.js"]⟩]] := by cbv
  refine ⟨by rw [hphase]; exact Phase.noConfusion, by rw [hqueue]; exact List.cons_ne_nil _ _, ?_⟩
  rintro ⟨hopened, -⟩
  rw [calls_of_failed hphase] at hopened
  exact List.cons_ne_nil _ _ (List.self_eq_append_right.mp hopened)

end SourceAtlas.Watcher
