import Mathlib
import SourceAtlas.Proofs.PathOrder
import SourceAtlas.Proofs.Session.Loading
import SourceAtlas.Proofs.Session.Refreshing

/-! # Paths that end a refresh

A path that cannot be read is passed over: a set of paths leaves the records that its legible paths
leave. Only a path with a NUL character is not passed over, if a record has its name: the paths that
come after it in order are not refreshed.
-/

namespace SourceAtlas.Session

variable {s : Session} {table : Table} {path : Path} {paths before : List Path}

theorem bars_iff : s.bars table path ↔
    path.text.contains '\x00' ∧ ∃ handle, s.FirstNamed table path.name handle := by
  rw [bars, Bool.and_eq_true, Option.isSome_iff_exists, and_comm]
  simp only [target?_eq_some_iff]

theorem exists_refresh_iff :
    (∃ found, (s.refresh table path).2 = .ok found) ↔ ¬s.bars table path := by
  refine ⟨?_, exists_refresh_of_not_bars⟩
  rintro ⟨found, hf⟩ hb
  rw [refresh_of_bars hb] at hf
  cases hf

theorem bars_refresh (s : Session) (table : Table) (path other : Path) :
    (s.refresh table path).1.bars table other = s.bars table other :=
  ((Settled.refl s table).refresh path).bars_eq other

/-! ## Paths one after the other -/

def refreshes (s : Session) (table : Table) (paths : List Path) : Session :=
  paths.foldl (fun s path => (s.refresh table path).1) s

theorem refreshEach_append (h : ∀ other ∈ before, ¬s.bars table other) (rest : List Path) :
    s.refreshEach table (before ++ rest) = (s.refreshes table before).refreshEach table rest := by
  induction before generalizing s with
  | nil => rfl
  | cons path before ih =>
    obtain ⟨found, hf⟩ := exists_refresh_iff.mpr (h path List.mem_cons_self)
    rw [List.cons_append, refreshEach_cons_of_ok hf, ih fun other ho => ?_]
    · rfl
    · rw [bars_refresh]
      exact h other (List.mem_cons_of_mem _ ho)

theorem refreshEach_of_free (h : ∀ path ∈ paths, ¬s.bars table path) :
    s.refreshEach table paths = (s.refreshes table paths, .ok ()) := by
  have he := refreshEach_append h []
  rwa [List.append_nil] at he

theorem bars_refreshes (s : Session) (table : Table) (paths : List Path) (other : Path) :
    (s.refreshes table paths).bars table other = s.bars table other := by
  induction paths generalizing s with
  | nil => rfl
  | cons path rest ih => exact (ih _).trans (bars_refresh s table path other)

theorem refreshEach_of_bars (h : ∀ other ∈ before, ¬s.bars table other)
    (hb : s.bars table path) (after : List Path) :
    s.refreshEach table (before ++ path :: after) =
      (s.refreshes table before, .error (.file .embeddedNul)) := by
  have hr := refresh_of_bars ((bars_refreshes s table before path).trans hb)
  rw [refreshEach_append h, refreshEach]
  simp only [hr]

/-! ## Paths that cannot be read -/

theorem textsFor_filter_legible (s : Session) (table : Table) (handle : Handle)
    (files : FileSystem) (paths : List Path) :
    s.textsFor table handle ((paths.filter files.Legible).map (files, ·)) =
      s.textsFor table handle (paths.map (files, ·)) := by
  induction paths with
  | nil => rfl
  | cons path rest ih =>
    cases hr : files.readSource path with
    | ok text =>
      rw [List.filter_cons_of_pos (by simp [FileSystem.legible_iff, hr]), List.map_cons,
        List.map_cons, ← List.singleton_append, textsFor_append, ih, ← textsFor_append]
      rfl
    | error e =>
      have hnone : s.textsFor table handle [(files, path)] = [] := by
        simp [textsFor, hr, Except.toOption]
      rw [List.filter_cons_of_neg (by simp [FileSystem.legible_iff, hr]), List.map_cons, ih,
        ← List.singleton_append, textsFor_append, hnone, List.nil_append]

theorem records_refreshEach_of_free (h : ∀ path ∈ paths, ¬s.bars table path) (handle : Handle) :
    (s.refreshEach table paths).1.records[handle]? = s.records[handle]?.map
      ((s.textsFor table handle (paths.map (s.files, ·))).foldl SourceFile.replaceContent) := by
  have hr := ((Settled.refl s table).refreshEach paths).records_eq handle
  rwa [List.nil_append, List.takeWhile_eq_self_iff.mpr fun path hp => by simpa using h path hp]
    at hr

/-- What cannot be read makes no difference to the records. -/
theorem records_refreshAll_filter (h : ∀ path ∈ paths, ¬s.bars table path) :
    (s.refreshAll table (paths.filter s.files.Legible)).1.records =
      (s.refreshAll table paths).1.records := by
  have hs : ∀ path ∈ Path.sorted paths, ¬s.bars table path :=
    fun path hp => h path (Path.mem_sorted.mp hp)
  refine Array.ext_getElem? fun handle => ?_
  rw [refreshAll, refreshAll, ← Path.filter_sorted, records_refreshEach_of_free hs,
    records_refreshEach_of_free fun path hp => hs path (List.mem_filter.mp hp).1,
    textsFor_filter_legible]

/-- A refresh returns unless the path has a NUL character and a record has its name. A set of paths
is refreshed path by path in ascending order, each path that does not end it having been refreshed;
if none does, the records are those that the legible paths of the set leave. Otherwise the first
path that does ends it, and the paths behind it are not refreshed. -/
theorem refreshAll_of_paths (s : Session) (table : Table) (paths : List Path) :
    (∀ path, (∃ found, (s.refresh table path).2 = .ok found) ↔
      ¬(path.text.contains '\x00' ∧ ∃ handle, s.FirstNamed table path.name handle)) ∧
    ((∀ path ∈ paths, ∃ found, (s.refresh table path).2 = .ok found) →
      s.refreshAll table paths = (s.refreshes table (Path.sorted paths), .ok ()) ∧
      (s.refreshAll table paths).1.records =
        (s.refreshAll table (paths.filter s.files.Legible)).1.records) ∧
    ∀ before path after, Path.sorted paths = before ++ path :: after →
      (∀ other ∈ before, ∃ found, (s.refresh table other).2 = .ok found) →
      (∀ found, (s.refresh table path).2 ≠ .ok found) →
        s.refreshAll table paths =
          (s.refreshes table before, .error (.file .embeddedNul)) := by
  refine ⟨fun path => ?_, fun hfree => ?_, fun before path after hsorted hbefore hb => ?_⟩
  · rw [exists_refresh_iff, bars_iff]
  · have hfree : ∀ path ∈ paths, ¬s.bars table path :=
      fun path hp => exists_refresh_iff.mp (hfree path hp)
    have hsorted : ∀ path ∈ Path.sorted paths, ¬s.bars table path :=
      fun path hp => hfree path (Path.mem_sorted.mp hp)
    exact ⟨refreshEach_of_free hsorted, (records_refreshAll_filter hfree).symm⟩
  · have hb : s.bars table path := by
      by_contra hn
      obtain ⟨found, hf⟩ := exists_refresh_iff.mpr hn
      exact hb found hf
    rw [refreshAll, hsorted]
    exact refreshEach_of_bars (fun other ho => exists_refresh_iff.mp (hbefore other ho)) hb after

/-- A file has been loaded. Another of its name, with other text, and one that is not well-formed
have been written since. -/
def renewed : Session :=
  (start .empty []).run [.edit (.write ⟨.here, ["a.js"]⟩ [0x61]), .create "w" [],
    .load "w" [⟨.here, ["a.js"]⟩], .edit (.write ⟨.here, ["d", "a.js"]⟩ [0x62]),
    .edit (.write ⟨.here, ["f", "a.js"]⟩ [0xFF])]

theorem refreshAll_of_renewed :
    let table : Table := ⟨[(1, 0)]⟩
    let good : Path := ⟨.here, ["d", "a.js"]⟩
    let barred : Path := ⟨.here, ["e\x00", "a.js"]⟩
    let gone : Path := ⟨.here, ["c", "a.js"]⟩
    let illegible : Path := ⟨.here, ["f", "a.js"]⟩
    (∀ path ∈ [illegible, good, gone], ∃ found, (renewed.refresh table path).2 = .ok found) ∧
      ((renewed.refreshAll table [illegible, good, gone]).1.records.map (·.source)) = #["b"] ∧
      (∀ found, (renewed.refresh table barred).2 ≠ .ok found) ∧
      Path.sorted [illegible, barred, good] = [good] ++ barred :: [illegible] ∧
      renewed.refreshAll table [illegible, barred, good] =
        (renewed.refreshes table [good], .error (.file .embeddedNul)) := by
  intro table good barred gone illegible
  obtain ⟨hiff, hfree, -⟩ := refreshAll_of_paths renewed table [illegible, good, gone]
  obtain ⟨-, -, hbars⟩ := refreshAll_of_paths renewed table [illegible, barred, good]
  have htexts : ([illegible, good, gone].all fun path => !path.text.contains '\x00') = true := by
    cbv
  have hreturns : ∀ path ∈ [illegible, good, gone],
      ∃ found, (renewed.refresh table path).2 = .ok found := by
    intro path hp
    have hn := List.all_eq_true.mp htexts path hp
    exact (hiff path).mpr fun h => by simp [h.1] at hn
  have hfilter : [illegible, good, gone].filter renewed.files.Legible = [good] := by cbv
  have hrecords : (renewed.refreshAll table [good]).1.records.map (·.source) = #["b"] := by cbv
  have hbarred : (renewed.refresh table barred).2 = .error (.file .embeddedNul) := by cbv
  have hgood : (renewed.refresh table good).2 = .ok (some 0) := by cbv
  have hsorted : Path.sorted [illegible, barred, good] = [good] ++ barred :: [illegible] := by cbv
  have hbarred : ∀ found, (renewed.refresh table barred).2 ≠ .ok found := by
    intro found h
    rw [hbarred] at h
    cases h
  refine ⟨hreturns, ?_, hbarred, hsorted,
    hbars _ _ _ hsorted (List.forall_mem_singleton.mpr ⟨_, hgood⟩) hbarred⟩
  rw [(hfree hreturns).2, hfilter, hrecords]

/-- A path with a NUL character keeps a path behind it from being refreshed. -/
theorem refreshAll_of_barred :
    let table : Table := ⟨[(1, 0)]⟩
    let good : Path := ⟨.here, ["d", "a.js"]⟩
    let barred : Path := ⟨.here, ["b\x00", "a.js"]⟩
    ¬renewed.files.Legible barred ∧
      (renewed.refreshAll table [barred, good]).2 = .error (.file .embeddedNul) ∧
      (renewed.refreshAll table [barred, good]).1.records.map (·.source) = #["a"] ∧
      (renewed.refreshAll table [good]).1.records.map (·.source) = #["b"] := by
  intro table good barred
  have hl : [barred].filter renewed.files.Legible = [] := by cbv
  have hb : (renewed.refreshAll table [barred, good]).2 = .error (.file .embeddedNul) := by cbv
  have hkept : (renewed.refreshAll table [barred, good]).1.records.map (·.source) = #["a"] := by cbv
  have hrenewed : (renewed.refreshAll table [good]).1.records.map (·.source) = #["b"] := by cbv
  exact ⟨fun h => by simp [h] at hl, hb, hkept, hrenewed⟩

end SourceAtlas.Session
