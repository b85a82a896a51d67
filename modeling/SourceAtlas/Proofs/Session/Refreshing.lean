import Mathlib.Tactic
import SourceAtlas.Proofs.Session.Retouch

/-! # What refreshing does to the records of a table

A path is read for the record that is the first of its name in a table, and for no other. After any
number of paths such a record has the last text that was read for it, and any other record has the
text that it had.
-/

namespace SourceAtlas

namespace FileSystem

/-- Only a path with a NUL character cannot be asked for at all. -/
theorem readSource_eq_embeddedNul_iff {fs : FileSystem} {path : Path} :
    fs.readSource path = .error (.file .embeddedNul) ↔ path.text.contains '\x00' := by
  constructor
  · intro h
    by_contra hn
    have hspot : fs.spot .find path ≠ .error .embeddedNul := by
      unfold spot
      rw [if_neg hn]
      split_ifs
      · nofun
      · split <;> nofun
    have hreach : fs.reach path ≠ .error .embeddedNul := by
      unfold reach
      split
      · split <;> nofun
      · nofun
      · next he => exact fun hq => hspot (he.trans (congrArg _ (Except.error.inj hq)))
    have hread : fs.read path ≠ .error .embeddedNul := by
      unfold read
      split
      · next he => exact fun hq => hreach (he.trans (congrArg _ (Except.error.inj hq)))
      · split <;> nofun
    unfold readSource at h
    split at h
    · next he =>
      obtain rfl := ReadError.file.inj (Except.error.inj h)
      exact hread he
    · split at h <;> cases h
  · intro h
    have hspot : fs.spot .find path = .error .embeddedNul := if_pos h
    simp only [readSource, read, reach, hspot]

end FileSystem

namespace SourceFile

theorem foldl_replaceContent (record : SourceFile) (texts : List String) :
    texts.foldl replaceContent record =
      match texts.getLast? with
      | some text => record.replaceContent text
      | none => record := by
  induction texts using List.reverseRecOn with
  | nil => rfl
  | append_singleton texts text ih =>
    rw [List.foldl_append, List.getLast?_concat, ih]
    split <;> rfl

theorem rewritten_foldl_replaceContent (record : SourceFile) (texts : List String) :
    record.Rewritten (texts.foldl replaceContent record) := by
  rw [foldl_replaceContent]
  split
  · exact .replaced _
  · exact .same

theorem source_foldl_replaceContent (record : SourceFile) (texts : List String) :
    (texts.foldl replaceContent record).source = texts.getLast?.getD record.source := by
  rw [foldl_replaceContent]
  split
  · next ht =>
    rw [ht]
    rfl
  · next ht =>
    rw [ht]
    rfl

end SourceFile

namespace Session

variable {s s' s'' : Session} {table : Table} {handle : Handle} {name : String} {path : Path}
  {paths : List Path}

/-! ## The first record of a name -/

/-- Whether a record has a path with this last component. -/
def HasName (s : Session) (name : String) (handle : Handle) : Prop :=
  ∃ record path, s.records[handle]? = some record ∧ record.path = some path ∧ path.name = name

theorem isNamed_iff : s.isNamed name handle ↔ s.HasName name handle := by
  unfold isNamed HasName
  cases hr : s.records[handle]? with
  | none => simp
  | some record => cases hp : record.path <;> simp [hp]

/-- Whether a record is the first of a name in the order of a table. -/
def FirstNamed (s : Session) (table : Table) (name : String) (handle : Handle) : Prop :=
  ∃ before after, table.values = before ++ handle :: after ∧ s.HasName name handle ∧
    ∀ other ∈ before, ¬s.HasName name other

theorem target?_eq_some_iff :
    s.target? table path = some handle ↔ s.FirstNamed table path.name handle := by
  rw [target?, List.find?_eq_some_iff_append, FirstNamed]
  simp only [isNamed_iff, Bool.not_eq_eq_eq_not, Bool.not_true, ← Bool.not_eq_true]
  constructor
  · rintro ⟨hn, before, after, hv, hb⟩
    exact ⟨before, after, hv, hn, hb⟩
  · rintro ⟨before, after, hv, hn, hb⟩
    exact ⟨hn, before, after, hv, hb⟩

/-! ## One path -/

/-- Whether a path cannot be asked for and there is a record that it would be read for. -/
def bars (s : Session) (table : Table) (path : Path) : Bool :=
  (s.target? table path).isSome && path.text.contains '\x00'

theorem bars_of_no_nul (h : ¬path.text.contains '\x00') : s.bars table path = false := by
  rw [bars, Bool.eq_false_iff.mpr h, Bool.and_false]

theorem refresh_of_bars (h : s.bars table path) :
    s.refresh table path = (s, .error (.file .embeddedNul)) := by
  obtain ⟨ht, hn⟩ := Bool.and_eq_true_iff.mp h
  obtain ⟨handle, ht⟩ := Option.isSome_iff_exists.mp ht
  simp only [refresh, ht, FileSystem.readSource_eq_embeddedNul_iff.mpr hn]

theorem exists_refresh_of_not_bars (h : ¬s.bars table path) :
    ∃ found, (s.refresh table path).2 = .ok found := by
  unfold refresh
  split
  · exact ⟨_, rfl⟩
  · next ht =>
    split
    · exact ⟨_, rfl⟩
    · next he =>
      have hn := FileSystem.readSource_eq_embeddedNul_iff.mp he
      exact absurd (Bool.and_eq_true_iff.mpr ⟨Option.isSome_iff_exists.mpr ⟨_, ht⟩, hn⟩) h
    · exact ⟨_, rfl⟩

theorem records_refresh (s : Session) (table : Table) (path : Path) :
    (s.refresh table path).1.records =
      match s.target? table path, s.files.readSource path with
      | some handle, .ok source => s.records.modify handle (·.replaceContent source)
      | _, _ => s.records := by
  unfold refresh
  split
  · next ht => simp only [ht]
  · next ht =>
    split
    · next he =>
      simp only [ht, he]
      rfl
    · next he => simp only [ht, he]
    · next he =>
      simp only [ht, he]
      rfl

theorem files_refresh (s : Session) (table : Table) (path : Path) :
    (s.refresh table path).1.files = s.files := by
  unfold refresh
  split
  · rfl
  · split <;> rfl

theorem refreshEach_cons_of_ok {found : Option Handle} (h : (s.refresh table path).2 = .ok found)
    (rest : List Path) : s.refreshEach table (path :: rest) =
      (s.refresh table path).1.refreshEach table rest := by
  rw [refreshEach]
  split
  · next he => rw [he]
  · next he =>
    rw [he] at h
    cases h

theorem refreshEach_cons_of_error {failure : Failure}
    (h : (s.refresh table path).2 = .error failure) (rest : List Path) :
    (s.refreshEach table (path :: rest)).1 = (s.refresh table path).1 := by
  rw [refreshEach]
  split
  · next he =>
    rw [he] at h
    cases h
  · next he => rw [he]

theorem files_refreshEach (s : Session) (table : Table) (paths : List Path) :
    (s.refreshEach table paths).1.files = s.files := by
  induction paths generalizing s with
  | nil => rfl
  | cons path rest ih =>
    cases h : (s.refresh table path).2 with
    | ok found => rw [refreshEach_cons_of_ok h, ih, files_refresh]
    | error failure => rw [refreshEach_cons_of_error h, files_refresh]

theorem refreshEach_uninterrupted (s : Session) (table : Table) (paths : List Path) :
    (s.refreshEach table paths).2 ≠ .error .interrupted := by
  induction paths generalizing s with
  | nil =>
    intro hi
    cases hi
  | cons path rest ih =>
    by_cases hb : s.bars table path
    · intro hi
      rw [refreshEach] at hi
      simp only [refresh_of_bars hb] at hi
      cases hi
    · obtain ⟨found, hf⟩ := exists_refresh_of_not_bars hb
      rw [refreshEach_cons_of_ok hf]
      exact ih _

/-! ## Any number of paths -/

/-- What is read for a record: the texts of the paths that it is the first record of the name of. -/
def textsFor (s : Session) (table : Table) (handle : Handle)
    (readings : List (FileSystem × Path)) : List String :=
  readings.filterMap fun (files, path) =>
    if s.target? table path = some handle then (files.readSource path).toOption else none

theorem textsFor_append (s : Session) (table : Table) (handle : Handle)
    (readings more : List (FileSystem × Path)) : s.textsFor table handle (readings ++ more) =
      s.textsFor table handle readings ++ s.textsFor table handle more :=
  List.filterMap_append

/-- The texts that are read from paths with this last component. -/
def textsNamed (name : String) (readings : List (FileSystem × Path)) : List String :=
  readings.filterMap fun (files, path) =>
    if path.name = name then (files.readSource path).toOption else none

theorem textsFor_of_firstNamed (h : s.FirstNamed table name handle)
    (readings : List (FileSystem × Path)) :
    s.textsFor table handle readings = textsNamed name readings := by
  have hiff : ∀ path : Path, s.target? table path = some handle ↔ path.name = name := by
    intro path
    rw [target?_eq_some_iff]
    constructor
    · rintro ⟨-, -, -, ⟨record, own, hr, hp, hown⟩, -⟩
      obtain ⟨-, -, -, ⟨record', own', hr', hp', hown'⟩, -⟩ := h
      obtain rfl : record = record' := Option.some.inj (hr.symm.trans hr')
      obtain rfl : own = own' := Option.some.inj (hp.symm.trans hp')
      exact hown.symm.trans hown'
    · rintro rfl
      exact h
  simp only [textsFor, textsNamed, hiff]

theorem textsFor_eq_nil (h : ∀ name, ¬s.FirstNamed table name handle)
    (readings : List (FileSystem × Path)) : s.textsFor table handle readings = [] :=
  List.filterMap_eq_nil_iff.mpr fun (_, _) _ => if_neg (target?_eq_some_iff.not.mpr (h _))

/-- The second session has the catalogs of the first, and each of its records as it is after the
texts that were read for it. -/
structure Settled (s : Session) (table : Table) (readings : List (FileSystem × Path))
    (s' : Session) : Prop where
  catalogs_eq : s'.catalogs = s.catalogs
  records_eq : ∀ handle : Handle, s'.records[handle]? =
    s.records[handle]?.map ((s.textsFor table handle readings).foldl SourceFile.replaceContent)

namespace Settled

variable {readings : List (FileSystem × Path)}

theorem refl (s : Session) (table : Table) : Settled s table [] s :=
  ⟨rfl, fun handle => by simp [textsFor]⟩

theorem of_eq (h : Settled s table readings s') (hc : s''.catalogs = s'.catalogs)
    (hr : s''.records = s'.records) : Settled s table readings s'' :=
  ⟨hc.trans h.catalogs_eq, fun handle => by rw [hr, h.records_eq]⟩

theorem isNamed_eq (h : Settled s table readings s') (name : String) (handle : Handle) :
    s'.isNamed name handle = s.isNamed name handle := by
  unfold isNamed
  rw [h.records_eq]
  cases s.records[handle]? with
  | none => rfl
  | some record =>
    dsimp only [Option.map_some]
    rw [(SourceFile.rewritten_foldl_replaceContent record _).path_eq]

theorem target?_eq (h : Settled s table readings s') (path : Path) :
    s'.target? table path = s.target? table path := by
  unfold target?
  exact congrArg (List.find? · table.values) (funext fun handle => h.isNamed_eq _ handle)

theorem bars_eq (h : Settled s table readings s') (path : Path) :
    s'.bars table path = s.bars table path := by
  rw [bars, bars, h.target?_eq]

theorem refresh (h : Settled s table readings s') (path : Path) :
    Settled s table (readings ++ [(s'.files, path)]) (s'.refresh table path).1 := by
  refine ⟨(Retouched.refresh s' table path).catalogs.trans h.catalogs_eq, fun handle => ?_⟩
  have hr := h.records_eq handle
  have htext : s.textsFor table handle [(s'.files, path)] =
      if s.target? table path = some handle then (s'.files.readSource path).toOption.toList
      else [] := by
    by_cases ht : s.target? table path = some handle
    · rw [if_pos ht]
      cases hread : s'.files.readSource path <;> simp [textsFor, ht, hread, Except.toOption]
    · simp [textsFor, ht]
  rw [records_refresh, h.target?_eq, textsFor_append, htext]
  cases ht : s.target? table path with
  | none => simpa using hr
  | some target =>
    cases hread : s'.files.readSource path with
    | error e => simpa [Except.toOption] using hr
    | ok source =>
      dsimp only
      rw [Array.getElem?_modify]
      by_cases heq : target = handle
      · rw [if_pos heq, hr, if_pos (congrArg some heq)]
        cases s.records[handle]? <;> simp [Except.toOption]
      · rw [if_neg heq, if_neg (by simpa using heq)]
        simpa using hr

theorem refreshEach (h : Settled s table readings s') (paths : List Path) :
    Settled s table (readings ++ (paths.takeWhile (!s.bars table ·)).map (s'.files, ·))
      (s'.refreshEach table paths).1 := by
  induction paths generalizing s' readings with
  | nil => simpa [Session.refreshEach] using h
  | cons path rest ih =>
    by_cases hb : s.bars table path
    · have hr := refresh_of_bars ((h.bars_eq path).trans hb)
      simpa [Session.refreshEach, hr, hb] using h
    · obtain ⟨found, hok⟩ := exists_refresh_of_not_bars (by rwa [h.bars_eq path])
      have hrest := ih (h.refresh path)
      rw [files_refresh] at hrest
      rw [refreshEach_cons_of_ok hok, List.takeWhile_cons_of_pos (by simpa using hb)]
      simpa using hrest

/-- What has become of a record, by the last component of its path. -/
theorem exists_record (h : Settled s table readings s') {record : SourceFile}
    (hr : s.records[handle]? = some record) :
    ∃ record', s'.records[handle]? = some record' ∧ record.Rewritten record' ∧
      (∀ path, record.path = some path → s.FirstNamed table path.name handle →
        record'.source = (textsNamed path.name readings).getLast?.getD record.source) ∧
      ((∀ path, record.path = some path → ¬s.FirstNamed table path.name handle) →
        record' = record) := by
  have hrecord := h.records_eq handle
  rw [hr, Option.map_some] at hrecord
  refine ⟨_, hrecord, record.rewritten_foldl_replaceContent _, fun path _ hfirst => ?_,
    fun hnot => ?_⟩
  · rw [textsFor_of_firstNamed hfirst, SourceFile.source_foldl_replaceContent]
  · have hnone : ∀ name, ¬s.FirstNamed table name handle := by
      intro name hfirst
      obtain ⟨-, -, -, ⟨record', own, hr', hpath, rfl⟩, -⟩ := id hfirst
      obtain rfl : record = record' := Option.some.inj (hr.symm.trans hr')
      exact hnot own hpath hfirst
    rw [textsFor_eq_nil hnone, List.foldl_nil]

end Settled

end Session

end SourceAtlas
