import Mathlib
import SourceAtlas.Proofs.Watcher.Delivery

/-! # Refreshing on change

A watched catalog whose callback refreshes it reads the delivered paths, batch by batch and inside a
batch in order, with the files as each batch leaves them. Callbacks that fail before they refresh
read nothing, and a callback ends at a path that cannot be asked for. What is left of all this in
the records is the last text that was read for each.
-/

namespace SourceAtlas.Watcher

open Batch

/-- A watcher that refreshes a catalog; some callbacks fail before they do. -/
def refreshing (directory : Path) (extensions : List String) (name : String) (fails : List Bool) :
    Setup :=
  ⟨directory, extensions, Session.react name .refresh fails⟩

/-- The notices whose callbacks do not fail before they read anything; the first is called after
`turn` others. -/
def unfailing (fails : List Bool) (turn : Nat) (handed : List Notice) : List Notice :=
  ((handed.zipIdx turn).filter fun (_, turn) => !fails[turn]?.getD false).map (·.1)

def readings (notices : List Notice) : List (FileSystem × Path) :=
  notices.flatMap fun notice => notice.paths.map (notice.files, ·)

/-- What is read for the records of a session while notices are handed on, the first after `turn`
others: each callback ends before the first path that cannot be asked for. -/
def reads (s : Session) (table : Table) (fails : List Bool) (turn : Nat) (handed : List Notice) :
    List (FileSystem × Path) :=
  (unfailing fails turn handed).flatMap fun notice =>
    (notice.paths.takeWhile (!s.bars table ·)).map (notice.files, ·)

/-- What has been read for the records of a session when batches have been taken from a queue. -/
def Setup.readOf (setup : Setup) (s : Session) (table : Table) (fails : List Bool)
    (batches : List Batch) : List (FileSystem × Path) :=
  reads s table fails 0 (setup.callbacks (notices s.files batches))

section Reads

variable {fails : List Bool} {handed : List Notice} {s : Session} {table : Table}

theorem unfailing_append (fails : List Bool) (turn : Nat) (handed more : List Notice) :
    unfailing fails turn (handed ++ more) =
      unfailing fails turn handed ++ unfailing fails (turn + handed.length) more := by
  simp only [unfailing, List.zipIdx_append, List.filter_append, List.map_append]

theorem mem_of_mem_unfailing {turn : Nat} {notice : Notice}
    (h : notice ∈ unfailing fails turn handed) : notice ∈ handed := by
  obtain ⟨⟨_, _⟩, hp, rfl⟩ := List.mem_map.mp h
  exact List.fst_mem_of_mem_zipIdx (List.mem_filter.mp hp).1

theorem reads_nil (s : Session) (table : Table) (fails : List Bool) (turn : Nat) :
    reads s table fails turn [] = [] := rfl

theorem reads_append (s : Session) (table : Table) (fails : List Bool) (turn : Nat)
    (handed more : List Notice) : reads s table fails turn (handed ++ more) =
      reads s table fails turn handed ++ reads s table fails (turn + handed.length) more := by
  rw [reads, unfailing_append, List.flatMap_append]
  rfl

theorem reads_of_forall_not_bars {turn : Nat}
    (h : ∀ notice ∈ handed, ∀ path ∈ notice.paths, s.bars table path = false) :
    reads s table fails turn handed = readings (unfailing fails turn handed) := by
  refine List.flatMap_congr fun notice hn => ?_
  rw [List.takeWhile_eq_self_iff.mpr fun path hp => ?_]
  rw [h notice (mem_of_mem_unfailing hn) path hp]
  rfl

end Reads

section Settled

variable {s s' s'' : Session} {setup : Setup} {name : String} {fails : List Bool}
  {catalog : Catalog} {read : List (FileSystem × Path)} {turn : ℕ} {handed : List Notice}

theorem settled_react (hc : s.catalogs.get? name = some catalog)
    (h : s.Settled catalog.table read s') (fails : List Bool) (turn : Nat) (paths : List Path) :
    s.Settled catalog.table
      (read ++ reads s catalog.table fails turn [⟨s'.files, Path.sorted paths⟩])
      (Session.react name .refresh fails turn paths s').1 := by
  unfold Session.react
  by_cases hf : fails[turn]?.getD false
  · rw [if_pos hf]
    simpa [reads, unfailing, hf] using h
  · rw [if_neg hf]
    have hr := h.refreshEach (Path.sorted paths)
    simpa [reads, unfailing, hf, Session.withCatalog, h.catalogs_eq, hc, Session.refreshAll]
      using hr

/-- Each call of the callback reads the paths of its notice. -/
theorem settled_callsBack (hb : setup.callback = Session.react name .refresh fails)
    (hc : s.catalogs.get? name = some catalog) (hcalls : setup.CallsBack turn s' handed s'')
    (hsorted : ∀ notice ∈ handed, Path.sorted notice.paths = notice.paths)
    (h : s.Settled catalog.table read s') :
    s.Settled catalog.table (read ++ reads s catalog.table fails turn handed) s'' := by
  induction hcalls generalizing read with
  | nil files log =>
    rw [reads_nil, List.append_nil]
    exact h.of_eq rfl rfl
  | @cons turn s' s'' notice rest log _ ih =>
    obtain ⟨hfirst, hrest⟩ := List.forall_mem_cons.mp hsorted
    rw [hb] at ih
    have hlogged : s.Settled catalog.table read { s' with
        files := notice.files
        log := s'.log ++ log ++ [.changesDetected notice.paths.length] } := h.of_eq rfl rfl
    have hreact := settled_react hc hlogged fails turn notice.paths
    rw [hfirst] at hreact
    have hnext := ih hrest hreact
    rwa [List.append_assoc, ← List.length_singleton (a := notice), ← reads_append,
      List.singleton_append] at hnext

/-- What any calls have made of the records of a watched catalog. -/
theorem settled_of_calls (hb : setup.callback = Session.react name .refresh fails)
    (hc : s.catalogs.get? name = some catalog) (queue : List Batch) (calls : List Call) :
    s.Settled catalog.table
      (setup.readOf s catalog.table fails (setup.consumed (.initial s queue) calls))
      (setup.calls (.initial s queue) calls).1.session := by
  refine settled_callsBack hb hc (progress_of_calls (steady_of_react hb) s queue calls).calls
    (fun notice hn => ?_) (.refl s catalog.table)
  obtain ⟨given, -, rfl⟩ := List.mem_map.mp (List.mem_filter.mp hn).1
  exact Path.sorted_sorted _

end Settled

theorem exists_batch_of_mem_notices {files : FileSystem} {batches : List Batch} {notice : Notice}
    (h : notice ∈ notices files batches) : ∃ batch ∈ batches, notice.paths = batch.paths := by
  induction batches generalizing files with
  | nil => cases h
  | cons batch rest ih =>
    rw [notices, List.mem_append] at h
    rcases h with h | h
    · split_ifs at h
      · rw [List.mem_singleton.mp h]
        exact ⟨batch, List.mem_cons_self, rfl⟩
      · cases h
    · obtain ⟨other, hm, he⟩ := ih h
      exact ⟨other, List.mem_cons_of_mem _ hm, he⟩

theorem exists_batch_of_mem_callbacks {setup : Setup} {files : FileSystem} {batches : List Batch}
    {notice : Notice} {path : Path} (h : notice ∈ setup.callbacks (notices files batches))
    (hp : path ∈ notice.paths) : ∃ batch ∈ batches, path ∈ batch.paths := by
  obtain ⟨given, hg, rfl⟩ := List.mem_map.mp (List.mem_filter.mp h).1
  obtain ⟨batch, hb, he⟩ := exists_batch_of_mem_notices hg
  exact ⟨batch, hb, he ▸ (mem_hits.mp hp).1⟩

/-- Under any calls, the batches that streams have taken are the beginning of the queue, and the
whole queue once a stream has ended without a failure. If none of its paths has a NUL character, a
record that is the first of its name in the catalog has the last text that was read under this name:
from the watched paths of each batch, in order and with the files as they are then, for each
callback that does not fail. Without such a text, and for every other record, it is the text that it
had. Nothing else of a record or of a catalog changes. -/
theorem sources_of_calls {s : Session} {name : String} {catalog : Catalog} {queue : List Batch}
    (hc : s.catalogs.get? name = some catalog)
    (hq : ∀ batch ∈ queue, ∀ path ∈ batch.paths, ¬path.text.contains '\x00')
    (directory : Path) (extensions : List String) (fails : List Bool) (calls : List Call) :
    let setup := refreshing directory extensions name fails
    let state := (setup.calls (.initial s queue) calls).1
    ∃ batches handed, queue = batches ++ state.queue ∧
      (state.opened = [] → batches = []) ∧
      (state.opened ≠ [] → state.queue = [] ∨ failures s.files batches ≠ []) ∧
      (calls = [.start, .wait] → state.opened = [directory]) ∧
      setup.HandsOn (notices s.files batches) handed ∧
      state.session.catalogs = s.catalogs ∧
      ∀ handle record, s.records[handle]? = some record →
        ∃ record', state.session.records[handle]? = some record' ∧
          record'.id = record.id ∧ record'.name = record.name ∧ record'.path = record.path ∧
          record'.kind = record.kind ∧
          (∀ path, record.path = some path → s.FirstNamed catalog.table path.name handle →
            record'.source = (Session.textsNamed path.name
              (readings (unfailing fails 0 handed))).getLast?.getD record.source) ∧
          ((∀ path, record.path = some path → ¬s.FirstNamed catalog.table path.name handle) →
            record' = record) := by
  intro setup state
  have hb : setup.callback = Session.react name .refresh fails := rfl
  have hsteady := steady_of_react hb
  have hp := progress_of_calls hsteady s queue calls
  have hs := settled_of_calls hb hc queue calls
  have hnotbars : ∀ notice ∈ setup.callbacks (notices s.files (setup.consumed (.initial s queue)
      calls)), ∀ path ∈ notice.paths, s.bars catalog.table path = false := by
    intro notice hn path hm
    obtain ⟨batch, hm, hpath⟩ := exists_batch_of_mem_callbacks hn hm
    exact Session.bars_of_no_nul (hq batch (hp.queue_eq ▸ List.mem_append_left _ hm) path hpath)
  rw [Setup.readOf, reads_of_forall_not_bars hnotbars] at hs
  refine ⟨_, _, hp.queue_eq, hp.begun, hp.failures_of_steady hsteady ▸ hp.ended, ?_,
    handsOn_callbacks setup _, hs.catalogs_eq, fun handle record hr => ?_⟩
  · rintro rfl
    have hstarted : (setup.call (.initial s queue) .start).1.phase = .pending := rfl
    exact (resumes_of_pending hsteady.leavesFiles hstarted).1
  · obtain ⟨record', hr', hrewritten, hfirst, hother⟩ := hs.exists_record hr
    exact ⟨record', hr', hrewritten.id_eq, hrewritten.name_eq, hrewritten.path_eq,
      hrewritten.kind_eq, hfirst, hother⟩

def twins : Session :=
  (Session.start .empty []).run [.edit (.write ⟨.here, ["d", "a.js"]⟩ [0x61]),
    .edit (.write ⟨.here, ["e", "a.js"]⟩ [0x62]), .create "w" [],
    .load "w" [⟨.here, ["d"]⟩, ⟨.here, ["e"]⟩]]

/-- The first file changes, then both are reported, then the second is gone. -/
def twinQueue : List Batch :=
  [.changes [.write ⟨.here, ["d", "a.js"]⟩ [0x63]] [⟨.here, ["d", "a.js"]⟩],
    .changes [.write ⟨.here, ["e", "a.js"]⟩ [0x64]]
      [⟨.here, ["e", "a.js"]⟩, ⟨.here, ["e", "a.md"]⟩, ⟨.here, ["d", "a.js"]⟩],
    .changes [.remove ⟨.here, ["e", "a.js"]⟩] [⟨.here, ["e", "a.js"]⟩]]

theorem sources_of_twinQueue :
    let setup := refreshing ⟨.here, []⟩ ["js"] "w" [true]
    let state := (setup.calls (.initial twins twinQueue) [.start, .wait]).1
    twins.catalogs.get? "w" = some ⟨{}, ⟨[(1, 0), (2, 1)]⟩⟩ ∧
      (∀ batch ∈ twinQueue, ∀ path ∈ batch.paths, ¬path.text.contains '\x00') ∧
      state.session.records.map (·.source) = #["d", "b"] ∧
      ∃ handed, setup.HandsOn (notices twins.files twinQueue) handed ∧
        (Session.textsNamed "a.js" (readings (unfailing [true] 0 handed))).getLast?.getD "a" =
          "d" := by
  intro setup state
  have hc : twins.catalogs.get? "w" = some ⟨{}, ⟨[(1, 0), (2, 1)]⟩⟩ := by cbv
  have hq : ∀ batch ∈ twinQueue, ∀ path ∈ batch.paths, ¬path.text.contains '\x00' := by
    have hall : twinQueue.all fun batch => batch.paths.all fun path =>
        !path.text.contains '\x00' := by cbv
    simpa [List.all_eq_true] using hall
  have hsources : ((refreshing ⟨.here, []⟩ ["js"] "w" [true]).calls (.initial twins twinQueue)
      [.start, .wait]).1.session.records.map (·.source) = #["d", "b"] := by cbv
  have hqueue : ((refreshing ⟨.here, []⟩ ["js"] "w" [true]).calls (.initial twins twinQueue)
      [.start, .wait]).1.queue = [] := by cbv
  have htarget : twins.target? ⟨[(1, 0), (2, 1)]⟩ ⟨.here, ["d", "a.js"]⟩ = some 0 := by cbv
  have hrecord : twins.records[0]?.map (fun record => (record.path, record.source)) =
      some (some ⟨.here, ["d", "a.js"]⟩, "a") := by cbv
  obtain ⟨record, hr, hrecord⟩ := Option.map_eq_some_iff.mp hrecord
  obtain ⟨hpath, hsource⟩ := Prod.mk.inj hrecord
  obtain ⟨batches, handed, hbatches, -, -, -, hhands, -, hrecords⟩ :=
    sources_of_calls hc hq ⟨.here, []⟩ ["js"] [true] [.start, .wait]
  obtain ⟨record', hr', -, -, -, -, hread, -⟩ := hrecords 0 record hr
  have hread := hread _ hpath (Session.target?_eq_some_iff.mp htarget)
  rw [hqueue, List.append_nil] at hbatches
  subst hbatches
  refine ⟨hc, hq, hsources, handed, hhands, ?_⟩
  have hd : _ = some "d" := congrArg (·[0]?) hsources
  rw [Array.getElem?_map, hr', Option.map_some] at hd
  rw [← hsource]
  exact hread.symm.trans (Option.some.inj hd)

end SourceAtlas.Watcher
