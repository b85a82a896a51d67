import Mathlib
import SourceAtlas.Proofs.FileSystem.Walk
import SourceAtlas.Proofs.Watcher.Refreshing

/-! # Ignored names below a watched directory

A walk leaves out what has an ignored name below its root; a watcher does not. If such paths were
not reported, the records would differ whose last text was read from one of them, and no others.
-/

namespace SourceAtlas

/-- Whether a path has an ignored name below a directory. -/
def Config.skips (config : Config) (directory path : Path) : Bool :=
  path.anchor == directory.anchor && directory.parts.isPrefixOf path.parts &&
    (path.parts.drop directory.parts.length).any config.ignores

def Notice.without (hidden : Path → Bool) (notice : Notice) : Notice :=
  ⟨notice.files, notice.paths.filter (!hidden ·)⟩

namespace Batch

variable {hidden : Path → Bool}

def without (hidden : Path → Bool) : Batch → Batch
  | .failing failure => .failing failure
  | .changes edits paths => .changes edits (paths.filter (!hidden ·))

theorem keepsArrivals_without (hidden : Path → Bool) : KeepsArrivals (without hidden) := by
  intro files batch
  cases batch <;> rfl

theorem paths_without (hidden : Path → Bool) (batch : Batch) :
    (batch.without hidden).paths = batch.paths.filter (!hidden ·) := by
  cases batch <;> rfl

theorem notices_map_without (files : FileSystem) (batches : List Batch) :
    notices files (batches.map (without hidden)) =
      (notices files batches).map (Notice.without hidden) := by
  induction batches generalizing files with
  | nil => rfl
  | cons batch rest ih =>
    rw [List.map_cons, notices, notices, keepsArrivals_without, paths_without, ih]
    split_ifs <;> rfl

end Batch

namespace Session

variable {s : Session} {table : Table} {handle : Handle} {files : FileSystem} {path : Path}
  {readings : List (FileSystem × Path)}

def lastReading? (s : Session) (table : Table) (handle : Handle)
    (readings : List (FileSystem × Path)) : Option (FileSystem × Path) :=
  readings.reverse.find? fun reading => !(s.textsFor table handle [reading]).isEmpty

theorem lastReading?_concat (s : Session) (table : Table) (handle : Handle)
    (readings : List (FileSystem × Path)) (reading : FileSystem × Path) :
    s.lastReading? table handle (readings ++ [reading]) =
      if s.textsFor table handle [reading] = [] then s.lastReading? table handle readings
      else some reading := by
  rw [lastReading?, List.reverse_concat, List.find?_cons]
  split_ifs with ht
  · rw [ht]
    rfl
  · rw [List.isEmpty_eq_false_iff.mpr ht]
    rfl

theorem exists_text_of_textsFor_ne_nil (h : s.textsFor table handle [(files, path)] ≠ []) :
    ∃ text, s.target? table path = some handle ∧ files.readSource path = .ok text ∧
      s.textsFor table handle [(files, path)] = [text] := by
  by_cases ht : s.target? table path = some handle
  · cases hr : files.readSource path with
    | ok text => exact ⟨text, ht, rfl, by simp [textsFor, ht, hr, Except.toOption]⟩
    | error e => simp [textsFor, ht, hr, Except.toOption] at h
  · simp [textsFor, ht] at h

/-- The last text for a record is the text of its last reading. -/
theorem exists_text_of_lastReading?
    (h : s.lastReading? table handle readings = some (files, path)) :
    ∃ text, s.target? table path = some handle ∧ files.readSource path = .ok text ∧
      (s.textsFor table handle readings).getLast? = some text := by
  induction readings using List.reverseRecOn with
  | nil => cases h
  | append_singleton readings reading ih =>
    rw [lastReading?_concat] at h
    rw [textsFor_append]
    split_ifs at h with ht
    · rw [ht, List.append_nil]
      exact ih h
    · obtain rfl : reading = (files, path) := Option.some.inj h
      obtain ⟨text, htarget, hread, htext⟩ := exists_text_of_textsFor_ne_nil ht
      exact ⟨text, htarget, hread, by rw [htext, List.getLast?_concat]⟩

/-- Readings that come before the last one for a record can be left out. -/
theorem getLast?_textsFor_filter (p : Path → Bool)
    (h : ∀ reading, s.lastReading? table handle readings = some reading → p reading.2) :
    (s.textsFor table handle (readings.filter (p ·.2))).getLast? =
      (s.textsFor table handle readings).getLast? := by
  induction readings using List.reverseRecOn with
  | nil => rfl
  | append_singleton readings reading ih =>
    rw [lastReading?_concat] at h
    rw [List.filter_append, textsFor_append, textsFor_append]
    by_cases ht : s.textsFor table handle [reading] = []
    · have hnone : s.textsFor table handle ([reading].filter (p ·.2)) = [] :=
        List.sublist_nil.mp (ht ▸ List.filter_sublist.filterMap _)
      rw [if_pos ht] at h
      rw [hnone, ht, List.append_nil, List.append_nil, ih h]
    · rw [if_neg ht] at h
      have hone : [reading].filter (p ·.2) = [reading] := List.filter_cons_of_pos (h _ rfl)
      rw [hone, List.getLast?_append_of_ne_nil _ ht, List.getLast?_append_of_ne_nil _ ht]

end Session

namespace Watcher

open Batch

variable {setup : Setup} {s : Session} {table : Table} {hidden : Path → Bool}

theorem takeWhile_congr {α : Type} {p q : α → Bool} {items : List α}
    (h : ∀ item ∈ items, p item = q item) : items.takeWhile p = items.takeWhile q := by
  induction items with
  | nil => rfl
  | cons item rest ih =>
    rw [List.takeWhile_cons, List.takeWhile_cons, h item List.mem_cons_self,
      ih fun other hm => h other (List.mem_cons_of_mem _ hm)]

theorem hits_filter (paths : List Path) (p : Path → Bool) :
    setup.hits (paths.filter p) = (setup.hits paths).filter p := by
  rw [Setup.hits, Setup.hits, Path.filter_sorted, List.filter_filter, List.filter_filter]
  simp only [Bool.and_comm]

/-- Nothing is read for notices without a watched path. -/
theorem reads_callbacks (turn : Nat) (notices : List Notice) :
    reads s table [] turn (setup.callbacks notices) = notices.flatMap fun notice =>
      ((setup.hits notice.paths).takeWhile (!s.bars table ·)).map (notice.files, ·) := by
  induction notices generalizing turn with
  | nil => rfl
  | cons notice rest ih =>
    rw [List.flatMap_cons]
    by_cases hn : setup.hits notice.paths = []
    · rw [callbacks_cons_of_nil hn, ih, hn]
      rfl
    · rw [callbacks_cons_of_ne_nil hn, ← List.singleton_append, reads_append, ih]
      simp [reads, unfailing]

/-- Without the reports of some paths nothing is read from these, and all else as with them. -/
theorem readOf_map_without {batches : List Batch}
    (h : ∀ batch ∈ batches, ∀ path ∈ batch.paths, hidden path → ¬path.text.contains '\x00') :
    setup.readOf s table [] (batches.map (without hidden)) =
      (setup.readOf s table [] batches).filter (!hidden ·.2) := by
  rw [Setup.readOf, Setup.readOf, notices_map_without, reads_callbacks, reads_callbacks,
    List.flatMap_map, List.filter_flatMap]
  refine List.flatMap_congr fun notice hn => ?_
  obtain ⟨batch, hb, hpaths⟩ := exists_batch_of_mem_notices hn
  -- A hidden path ends no callback, so that it may be left out before or after the callback ends.
  have hends : ∀ path ∈ setup.hits notice.paths,
      (!!hidden path || !s.bars table path) = !s.bars table path := by
    intro path hm
    by_cases hp : hidden path
    · rw [Session.bars_of_no_nul (h batch hb path (hpaths ▸ (mem_hits.mp hm).1) hp), hp]
      rfl
    · rw [Bool.eq_false_iff.mpr hp]
      rfl
  rw [Notice.without, hits_filter, List.takeWhile_filter, takeWhile_congr hends, List.filter_map]
  rfl

/-- Under any calls, a watcher makes no difference between ignored names and others. A record is the
same as if no path with an ignored name below the directory had been reported, unless its last text
was read from such a path; whichever path it was read from, the record has that text. -/
theorem records_of_without {name : String} {catalog : Catalog} {queue : List Batch}
    {directory : Path} (hc : s.catalogs.get? name = some catalog)
    (hq : ∀ batch ∈ queue, ∀ path ∈ batch.paths,
      catalog.config.skips directory path → ¬path.text.contains '\x00')
    (extensions : List String) (calls : List Call) (handle : Handle) :
    let setup := refreshing directory extensions name []
    let skips := catalog.config.skips directory
    let run := (setup.calls (.initial s queue) calls).1.session
    let quiet := (setup.calls (.initial s (queue.map (without skips))) calls).1.session
    let last := s.lastReading? catalog.table handle
      (setup.readOf s catalog.table [] (setup.consumed (.initial s queue) calls))
    ((∀ reading, last = some reading → ¬skips reading.2) →
      run.records[handle]? = quiet.records[handle]?) ∧
    ∀ files path, last = some (files, path) → ∃ record text,
      run.records[handle]? = some record ∧ files.readSource path = .ok text ∧
        record.source = text := by
  intro setup skips run quiet last
  have hb : setup.callback = Session.react name .refresh [] := rfl
  have hl := steady_of_react hb
  have hp := progress_of_calls hl s queue calls
  have hrun := settled_of_calls hb hc queue calls
  have hquiet := settled_of_calls hb hc (queue.map (without skips)) calls
  have hskips : ∀ batch ∈ setup.consumed (.initial s queue) calls, ∀ path ∈ batch.paths,
      skips path → ¬path.text.contains '\x00' :=
    fun batch hm => hq batch (hp.queue_eq ▸ List.mem_append_left _ hm)
  -- Both watchers take the same batches at the same calls, so what they read differs by the reports
  -- that are left out.
  rw [(abreast_initial (without skips) s queue).consumed (keepsArrivals_without skips) hl hl rfl,
    readOf_map_without hskips] at hquiet
  refine ⟨fun hlast => ?_, fun files path hlast => ?_⟩
  · have htexts := Session.getLast?_textsFor_filter (!skips ·) fun reading hr => by
      simpa using hlast reading hr
    rw [hrun.records_eq, hquiet.records_eq]
    refine congrArg (Option.map · _) (funext fun record => ?_)
    rw [SourceFile.foldl_replaceContent, SourceFile.foldl_replaceContent, htexts]
  · obtain ⟨text, htarget, hread, htext⟩ := Session.exists_text_of_lastReading? hlast
    obtain ⟨-, -, -, ⟨record, -, hr, -⟩, -⟩ := Session.target?_eq_some_iff.mp htarget
    have hrecord := hrun.records_eq handle
    rw [hr, Option.map_some] at hrecord
    refine ⟨_, text, hrecord, hread, ?_⟩
    rw [SourceFile.source_foldl_replaceContent, htext, Option.getD_some]

def vendoring : Config :=
  { ignored := ["vendor"] }

/-- A file is loaded; one of the same name stands below an ignored directory beside it. -/
def shadowed : Session :=
  (Session.start .empty []).run [.edit (.write ⟨.here, ["d", "a.js"]⟩ [0x6F, 0x6E, 0x65]),
    .edit (.write ⟨.here, ["d", "vendor", "a.js"]⟩ [0x74, 0x77, 0x6F]),
    .create "w" vendoring.toFields, .load "w" [⟨.here, ["d"]⟩]]

def shadowBatch : Batch :=
  .changes [] [⟨.here, ["d", "vendor", "a.js"]⟩]

/-- The ignored file is reported, and the loaded one after it. -/
def shadowQueue : List Batch :=
  [shadowBatch, .changes [] [⟨.here, ["d", "a.js"]⟩]]

def shadowWatch : Setup :=
  refreshing ⟨.here, ["d"]⟩ ["js"] "w" []

def shadowSkips : Path → Bool :=
  vendoring.skips ⟨.here, ["d"]⟩

theorem records_of_shadowQueue :
    let run := (shadowWatch.calls (.initial shadowed shadowQueue) [.start, .wait]).1
    let quiet := (shadowWatch.calls (.initial shadowed (shadowQueue.map (without shadowSkips)))
      [.start, .wait]).1
    shadowed.catalogs.get? "w" = some ⟨vendoring, ⟨[(1, 0)]⟩⟩ ∧
      (∀ batch ∈ shadowQueue, ∀ path ∈ batch.paths,
        shadowSkips path → ¬path.text.contains '\x00') ∧
      run.delivered ≠ quiet.delivered ∧ run.session.records[0]? = quiet.session.records[0]? := by
  intro run quiet
  have hc : shadowed.catalogs.get? "w" = some ⟨vendoring, ⟨[(1, 0)]⟩⟩ := by cbv
  have hq : ∀ batch ∈ shadowQueue, ∀ path ∈ batch.paths,
      shadowSkips path → ¬path.text.contains '\x00' := by
    have hall : shadowQueue.all fun batch => batch.paths.all fun path =>
        !path.text.contains '\x00' := by cbv
    simp only [List.all_eq_true, Bool.not_eq_true'] at hall
    intro batch hb path hp _
    exact Bool.eq_false_iff.mp (hall batch hb path hp)
  have hrun : (shadowWatch.calls (.initial shadowed shadowQueue) [.start, .wait]).1.delivered =
      [[⟨.here, ["d", "vendor", "a.js"]⟩], [⟨.here, ["d", "a.js"]⟩]] := by cbv
  have hquiet : (shadowWatch.calls (.initial shadowed (shadowQueue.map (without shadowSkips)))
      [.start, .wait]).1.delivered = [[⟨.here, ["d", "a.js"]⟩]] := by cbv
  have hlast : (shadowed.lastReading? ⟨[(1, 0)]⟩ 0 (shadowWatch.readOf shadowed ⟨[(1, 0)]⟩ []
      (shadowWatch.consumed (.initial shadowed shadowQueue) [.start, .wait]))).map (·.2) =
      some ⟨.here, ["d", "a.js"]⟩ := by cbv
  have hown : shadowSkips ⟨.here, ["d", "a.js"]⟩ = false := by cbv
  have hsame := (records_of_without hc hq ["js"] [.start, .wait] 0).1 fun reading hr => by
    obtain ⟨other, ho, hpath⟩ := Option.map_eq_some_iff.mp hlast
    obtain rfl : reading = other := Option.some.inj (hr.symm.trans ho)
    exact Bool.eq_false_iff.mp (hpath.symm ▸ hown)
  refine ⟨hc, hq, ?_, hsame⟩
  rw [hrun, hquiet]
  decide

/-- A report from below an ignored directory, which the walk leaves out, replaces the text of a
record. -/
theorem records_of_shadowBatch :
    let run := (shadowWatch.calls (.initial shadowed [shadowBatch]) [.start, .wait]).1.session
    let quiet := (shadowWatch.calls (.initial shadowed ([shadowBatch].map (without shadowSkips)))
      [.start, .wait]).1.session
    shadowed.catalogs.get? "w" = some ⟨vendoring, ⟨[(1, 0)]⟩⟩ ∧
      vendoring.candidates shadowed.files [⟨.here, ["d"]⟩] =
        ([⟨.here, ["d", "a.js"]⟩], none) ∧
      quiet.records.map (·.source) = #["one"] ∧ run.records.map (·.source) = #["two"] ∧
      run.records ≠ quiet.records := by
  intro run quiet
  have hquiet : (shadowWatch.calls (.initial shadowed ([shadowBatch].map (without shadowSkips)))
      [.start, .wait]).1.session.records.map (·.source) = #["one"] := by cbv
  have hrun : (shadowWatch.calls (.initial shadowed [shadowBatch])
      [.start, .wait]).1.session.records.map (·.source) = #["two"] := by cbv
  refine ⟨by cbv, by cbv, hquiet, hrun, fun heq => ?_⟩
  have htexts := hrun.symm.trans ((congrArg (Array.map (·.source)) heq).trans hquiet)
  revert htexts
  decide

end Watcher

end SourceAtlas
