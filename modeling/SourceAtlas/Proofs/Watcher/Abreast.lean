import SourceAtlas.Proofs.Watcher.Stream

/-! # Watchers abreast

Two watchers of one directory whose queues differ in no more than the reported paths stay abreast
under the same calls: they take the same batches at the same calls and are in the same phase,
however their callbacks fail.
-/

namespace SourceAtlas

namespace Batch

/-- Whether a change of batches keeps what they do to the files and to the stream. -/
def KeepsArrivals (change : Batch → Batch) : Prop :=
  ∀ files batch, (change batch).arrive files = batch.arrive files

variable {change : Batch → Batch}

theorem keepsArrivals_id : KeepsArrivals id :=
  fun _ _ => rfl

theorem filesAfter_map (hc : KeepsArrivals change) (files : FileSystem) (batches : List Batch) :
    filesAfter files (batches.map change) = filesAfter files batches := by
  induction batches generalizing files with
  | nil => rfl
  | cons batch rest ih => rw [List.map_cons, filesAfter_cons, filesAfter_cons, hc, ih]

theorem failures_map (hc : KeepsArrivals change) (files : FileSystem) (batches : List Batch) :
    failures files (batches.map change) = failures files batches := by
  induction batches generalizing files with
  | nil => rfl
  | cons batch rest ih => rw [List.map_cons, failures, failures, hc, ih]

theorem taken_map (hc : KeepsArrivals change) (files : FileSystem) (queue : List Batch) :
    taken files (queue.map change) = (taken files queue).map change := by
  induction queue generalizing files with
  | nil => rfl
  | cons batch rest ih =>
    rw [List.map_cons, taken, taken, hc, List.map_cons, ih]
    split_ifs <;> rfl

end Batch

namespace Watcher

open Batch

/-- Two watchers that differ in no more than sessions, files apart, in the calls of the callback and
in what the batches of the queue report. -/
structure Abreast (change : Batch → Batch) (a b : State) : Prop where
  phase_eq : b.phase = a.phase
  files_eq : b.session.files = a.session.files
  queue_eq : b.queue = a.queue.map change
  opened_eq : b.opened = a.opened

theorem abreast_initial (change : Batch → Batch) (s : Session) (queue : List Batch) :
    Abreast change (.initial s queue) (.initial s (queue.map change)) :=
  ⟨rfl, rfl, rfl, rfl⟩

namespace Abreast

variable {change : Batch → Batch} {setup setup' : Setup} {a b : State}

theorem takes (hc : KeepsArrivals change) (h : Abreast change a b) (call : Call) :
    b.takes call = (a.takes call).map change := by
  cases call with
  | start | stop => rfl
  | wait =>
    rw [State.takes, State.takes, h.phase_eq, h.files_eq, h.queue_eq, taken_map hc]
    split_ifs <;> rfl

section Calls

variable (hc : KeepsArrivals change) (hs : setup.Steady) (hs' : setup'.Steady)
  (hd : setup'.directory = setup.directory)

include hc hs hs' hd

/-- Streams that are begun abreast end abreast. -/
theorem consume (h : Abreast change a b) :
    Abreast change (setup.consume { a with opened := a.opened ++ [setup.directory] } a.queue)
      (setup'.consume { b with opened := b.opened ++ [setup'.directory] } b.queue) := by
  have hsa := streams_of_steady hs { a with opened := a.opened ++ [setup.directory] } a.queue
  have hsb := streams_of_steady hs' { b with opened := b.opened ++ [setup'.directory] } b.queue
  have htaken : taken b.session.files b.queue = (taken a.session.files a.queue).map change := by
    rw [h.files_eq, h.queue_eq, taken_map hc]
  constructor
  case phase_eq =>
    rw [hsa.phase_eq hs, hsb.phase_eq hs']
    dsimp only
    rw [htaken, h.files_eq, failures_map hc]
  case files_eq =>
    rw [hsa.files_eq, hsb.files_eq]
    dsimp only
    rw [htaken, h.files_eq, filesAfter_map hc]
  case queue_eq =>
    have hqueue := hsb.queue_eq
    dsimp only at hqueue
    rw [htaken] at hqueue
    refine List.append_cancel_left (hqueue.symm.trans ?_)
    rw [h.queue_eq, ← List.map_append]
    exact congrArg (List.map change) hsa.queue_eq
  case opened_eq =>
    rw [hsa.opened_eq, hsb.opened_eq]
    dsimp only
    rw [h.opened_eq, hd]

theorem call (h : Abreast change a b) (call : Call) :
    Abreast change (setup.call a call).1 (setup'.call b call).1 := by
  have ha := steps setup a call
  have hb := steps setup' b call
  have hp := h.phase_eq
  generalize (setup.call a call).1 = a' at ha
  generalize (setup'.call b call).1 = b' at hb
  cases ha with
  | start hpa =>
    cases hb with
    | start => exact ⟨rfl, h.files_eq, h.queue_eq, h.opened_eq⟩
    | stay hn => simp [hp, hpa, Phase.heeds] at hn
  | stop hpa =>
    cases hb with
    | stop => exact ⟨rfl, h.files_eq, h.queue_eq, h.opened_eq⟩
    | stay hn => rcases hpa with hpa | hpa <;> simp [hp, hpa, Phase.heeds] at hn
  | wait hpa =>
    cases hb with
    | wait => exact h.consume hc hs hs' hd
    | stay hn => simp [hp, hpa, Phase.heeds] at hn
  | stay hna =>
    rw [← hp] at hna
    cases hb with
    | start hpb => simp [hpb, Phase.heeds] at hna
    | stop hpb => rcases hpb with hpb | hpb <;> simp [hpb, Phase.heeds] at hna
    | wait hpb => simp [hpb, Phase.heeds] at hna
    | stay => exact h

theorem consumed (h : Abreast change a b) (calls : List Call) :
    setup'.consumed b calls = (setup.consumed a calls).map change := by
  induction calls generalizing a b with
  | nil => rfl
  | cons call rest ih =>
    rw [Setup.consumed, Setup.consumed, List.map_append, h.takes hc,
      ih (h.call hc hs hs' hd call)]

/-- Watchers that are abreast show the same after every call. -/
theorem map_isRunning (h : Abreast change a b) (calls : List Call) :
    (setup'.calls b calls).2.map (·.isRunning) = (setup.calls a calls).2.map (·.isRunning) := by
  induction calls generalizing a b with
  | nil => rfl
  | cons call rest ih =>
    have hn := h.call hc hs hs' hd call
    have hr := ih hn
    simp only [Setup.calls, List.map_cons] at hr ⊢
    rw [hn.phase_eq, hr]

end Calls

end Abreast

end Watcher

end SourceAtlas
