import Mathlib
import SourceAtlas.Proofs.Session.Sharing
import SourceAtlas.Proofs.Text.Malformed

/-! # Bytes that are kept

A file is loaded or refreshed exactly if its bytes are well-formed, and then the record has these
bytes, none of them changed, left out or added. Otherwise the warning says where they stop being
well-formed.
-/

namespace SourceAtlas

namespace FileSystem

variable {fs : FileSystem} {path : Path} {bytes : Bytes}

theorem legible_iff_of_read (hr : fs.read path = .ok bytes) :
    fs.Legible path ↔ bytes.toByteArray.IsValidUTF8 := by
  simp [Legible, hr]

/-- What is said of a file that can be read but is not well-formed. -/
theorem exists_malformed (hr : fs.read path = .ok bytes) (h : ¬bytes.toByteArray.IsValidUTF8) :
    ∃ malformed, fs.readSource path = .error (.encoding malformed) ∧ malformed.Describes bytes := by
  rw [← legible_iff_of_read hr, legible_iff] at h
  cases hd : Utf8.decode bytes with
  | ok text => exact absurd ⟨text, by simp [readSource, hr, hd]⟩ h
  | error malformed =>
    exact ⟨malformed, by simp [readSource, hr, hd], Utf8.decode_eq_error_iff.mp hd⟩

end FileSystem

namespace Session

variable {s : Session} {name : String} {catalog : Catalog} {roots paths : List Path} {path : Path}
  {bytes : Bytes} {handle : Handle} {record : SourceFile} {batch : Table}

/-! ## Loading -/

theorem exists_arrival_iff {fs : FileSystem} {next : Int} :
    (∃ record ∈ arrivals next (fs.texts paths), record.path = some path) ↔
      path ∈ paths ∧ fs.Legible path := by
  have hmem := congrArg (some path ∈ ·) (fs.map_path_arrivals paths next)
  simpa using hmem

/-- The records that the new ids lead to are those of the files that were read. -/
theorem record?_filled_iff (h : s.IsBatch paths batch) :
    (∃ id ∈ batch.keys, (s.filled name catalog paths batch).record?
        (catalog.table.merge batch) id = some record) ↔
      record ∈ arrivals s.counter.next (s.files.texts paths) := by
  constructor
  · rintro ⟨id, hi, hr⟩
    obtain ⟨i, hlt, rfl⟩ := h.mem_keys_iff.mp hi
    rw [record?_filled h name catalog hlt] at hr
    exact List.mem_of_getElem? hr
  · intro hr
    obtain ⟨i, hi⟩ := List.mem_iff_getElem?.mp hr
    have hlt : i < (s.files.texts paths).length := by
      rw [← length_arrivals s.counter.next]
      exact (List.getElem?_eq_some_iff.mp hi).1
    exact ⟨_, h.mem_keys_iff.mpr ⟨i, hlt, rfl⟩, (record?_filled h name catalog hlt).trans hi⟩

theorem bytes_of_arrival {fs : FileSystem} {next : Int} (hb : fs.read path = .ok bytes)
    (hr : record ∈ arrivals next (fs.texts paths)) (hp : record.path = some path) :
    record.bytes = bytes ∧ record.lines.length = bytes.length := by
  obtain ⟨id, _, text, ht, rfl⟩ := exists_of_mem_arrivals hr
  obtain rfl := Option.some.inj hp
  obtain rfl : Utf8.encode text = bytes :=
    Except.ok.inj ((FileSystem.readSource_eq_ok_iff.mp ht).symm.trans hb)
  exact ⟨rfl, rfl⟩

theorem log_filled (s : Session) (name : String) (catalog : Catalog) (paths : List Path)
    (batch : Table) :
    (s.filled name catalog paths batch).log.drop s.log.length =
      s.files.warnings paths ++ [.loaded (s.files.texts paths).length] := by
  simp [filled_eq]

theorem readFailed_mem_log_iff {error : ReadError} :
    .readFailed path error ∈ (s.filled name catalog paths batch).log.drop s.log.length ↔
      path ∈ paths ∧ s.files.readSource path = .error error := by
  rw [log_filled, List.mem_append, List.mem_singleton, FileSystem.mem_warnings_iff]
  constructor
  · rintro (⟨path', hp, error', he, heq⟩ | heq)
    · obtain ⟨rfl, rfl⟩ := Event.readFailed.inj heq
      exact ⟨hp, he⟩
    · cases heq
  · rintro ⟨hp, he⟩
    exact .inl ⟨path, hp, error, he, rfl⟩

theorem load_of_read (h : s.IsBatch paths batch) (hb : s.files.read path = .ok bytes)
    (hmem : path ∈ paths) :
    let s' := s.filled name catalog paths batch
    let table := catalog.table.merge batch
    ((∃ id ∈ batch.keys, ∃ record, s'.record? table id = some record ∧
      record.path = some path) ↔ bytes.toByteArray.IsValidUTF8) ∧
    (∀ id ∈ batch.keys, ∀ record, s'.record? table id = some record →
      record.path = some path → record.bytes = bytes ∧ record.lines.length = bytes.length) ∧
    ((∃ error, .readFailed path error ∈ s'.log.drop s.log.length) ↔
      ¬bytes.toByteArray.IsValidUTF8) ∧
    ∀ error, .readFailed path error ∈ s'.log.drop s.log.length →
      ∃ malformed, error = .encoding malformed ∧ malformed.Describes bytes := by
  intro s' table
  have hl := FileSystem.legible_iff_of_read hb
  have hfailed : ∀ error, .readFailed path error ∈ s'.log.drop s.log.length ↔
      s.files.readSource path = .error error := by
    simp [s', readFailed_mem_log_iff, hmem]
  refine ⟨⟨?_, fun hv => ?_⟩, fun id hi record hr hp => ?_, ⟨?_, fun hv => ?_⟩, fun error he => ?_⟩
  · rintro ⟨id, hi, record, hr, hp⟩
    have harrival := (record?_filled_iff h).mp ⟨id, hi, hr⟩
    exact hl.mp (exists_arrival_iff.mp ⟨record, harrival, hp⟩).2
  · obtain ⟨record, hr, hp⟩ := exists_arrival_iff.mpr ⟨hmem, hl.mpr hv⟩
    obtain ⟨id, hi, hr⟩ := (record?_filled_iff h).mpr hr
    exact ⟨id, hi, record, hr, hp⟩
  · exact bytes_of_arrival hb ((record?_filled_iff h).mp ⟨id, hi, hr⟩) hp
  · rintro ⟨error, he⟩ hv
    obtain ⟨text, ht⟩ := FileSystem.legible_iff.mp (hl.mpr hv)
    cases ht.symm.trans ((hfailed error).mp he)
  · obtain ⟨malformed, hm, -⟩ := FileSystem.exists_malformed hb hv
    exact ⟨_, (hfailed _).mpr hm⟩
  · have he := (hfailed error).mp he
    have hv : ¬bytes.toByteArray.IsValidUTF8 := by
      rw [← hl, FileSystem.legible_iff]
      rintro ⟨text, ht⟩
      cases ht.symm.trans he
    obtain ⟨malformed, hm, hd⟩ := FileSystem.exists_malformed hb hv
    exact ⟨malformed, Except.error.inj (he.symm.trans hm), hd⟩

/-! ## Refreshing -/

theorem refresh_of_malformed {malformed : Utf8.Malformed}
    (h : s.FirstNamed catalog.table path.name handle)
    (hr : s.files.readSource path = .error (.encoding malformed)) :
    s.refresh catalog.table path =
      (s.emit (.reloadFailed path (.encoding malformed)), .ok none) := by
  simp only [refresh, target?_eq_some_iff.mpr h, hr]

theorem idOf_replace (s : Session) (handle : Handle) (text : String) (event : Event) :
    ((s.replace handle text).emit event).idOf handle = s.idOf handle := by
  simp only [idOf, emit, replace, Array.getElem?_modify, if_true]
  cases s.records[handle]? <;> rfl

theorem refresh_of_read (hc : s.catalogs.get? name = some catalog)
    (hb : s.files.read path = .ok bytes) (h : s.FirstNamed catalog.table path.name handle) :
    let s' := (s.perform (.refresh name path)).1
    ((s.perform (.refresh name path)).2 = .ok (.id (some (s.idOf handle))) ↔
      bytes.toByteArray.IsValidUTF8) ∧
    (bytes.toByteArray.IsValidUTF8 →
      ∃ record, s'.records[handle]? = some record ∧ record.bytes = bytes ∧
        record.lines.length = bytes.length) ∧
    (¬bytes.toByteArray.IsValidUTF8 →
      (s.perform (.refresh name path)).2 = .ok (.id none) ∧ s'.records = s.records ∧
        ∃ malformed, s'.log = s.log ++ [.reloadFailed path (.encoding malformed)] ∧
          malformed.Describes bytes) := by
  intro s'
  by_cases hv : bytes.toByteArray.IsValidUTF8
  · obtain ⟨text, ht⟩ := FileSystem.legible_iff.mp ⟨bytes, hb, hv⟩
    obtain rfl : Utf8.encode text = bytes :=
      Except.ok.inj ((FileSystem.readSource_eq_ok_iff.mp ht).symm.trans hb)
    have ⟨_, _, _, ⟨record, _, hr, _⟩, _⟩ := h
    have hrefresh := refresh_of_ok h ht
    refine ⟨⟨fun _ => hv, fun _ => ?_⟩, fun _ => ⟨record.replaceContent text, ?_, rfl, rfl⟩,
      fun hn => absurd hv hn⟩
    · rw [perform_refresh hc, hrefresh]
      simp [Except.map, idOf_replace]
    · simp only [s', perform_refresh hc, hrefresh]
      simpa [emit] using records_replace hr text handle
  · obtain ⟨malformed, hm, hd⟩ := FileSystem.exists_malformed hb hv
    have hrefresh := refresh_of_malformed h hm
    have hnone : (s.perform (.refresh name path)).2 = .ok (.id none) := by
      rw [perform_refresh hc, hrefresh]
      rfl
    refine ⟨⟨fun hsome => ?_, fun h => absurd h hv⟩, fun h => absurd h hv, fun _ => ⟨hnone, ?_⟩⟩
    · rw [hnone] at hsome
      cases hsome
    · simp only [s', perform_refresh hc, hrefresh]
      exact ⟨rfl, malformed, rfl, hd⟩

/-- A file that is found by a load is loaded exactly if its bytes are well-formed, and a file that
has the name of a record is taken for it exactly if its bytes are. The record that it becomes, or
that is refreshed, then has these bytes, and a line index of their length. Otherwise there is a
warning, and it says how long the longest beginning of whole characters is and which part behind
that is the longest with which a character begins. -/
theorem bytes_of_reading (hc : s.catalogs.get? name = some catalog)
    (hb : s.files.read path = .ok bytes) :
    (∀ roots paths pool, catalog.config.candidates s.files roots = (paths, none) → path ∈ paths →
      ∃ ids table, (s.perform (.load name roots pool)).2 = .ok (.ids ids) ∧
        (s.perform (.load name roots pool)).1.catalogs.get? name = some { catalog with table } ∧
        let s' := (s.perform (.load name roots pool)).1
        ((∃ id ∈ ids, ∃ record, s'.record? table id = some record ∧ record.path = some path) ↔
          bytes.toByteArray.IsValidUTF8) ∧
        (∀ id ∈ ids, ∀ record, s'.record? table id = some record → record.path = some path →
          record.bytes = bytes ∧ record.lines.length = bytes.length) ∧
        ((∃ error, .readFailed path error ∈ s'.log.drop s.log.length) ↔
          ¬bytes.toByteArray.IsValidUTF8) ∧
        ∀ error, .readFailed path error ∈ s'.log.drop s.log.length →
          ∃ malformed, error = .encoding malformed ∧ malformed.Describes bytes) ∧
    ∀ handle, s.FirstNamed catalog.table path.name handle →
      let s' := (s.perform (.refresh name path)).1
      ((s.perform (.refresh name path)).2 = .ok (.id (some (s.idOf handle))) ↔
        bytes.toByteArray.IsValidUTF8) ∧
      (bytes.toByteArray.IsValidUTF8 →
        ∃ record, s'.records[handle]? = some record ∧ record.bytes = bytes ∧
          record.lines.length = bytes.length) ∧
      (¬bytes.toByteArray.IsValidUTF8 →
        (s.perform (.refresh name path)).2 = .ok (.id none) ∧ s'.records = s.records ∧
          ∃ malformed, s'.log = s.log ++ [.reloadFailed path (.encoding malformed)] ∧
            malformed.Describes bytes) := by
  refine ⟨fun roots paths pool hp hmem => ?_, fun handle h => refresh_of_read hc hb h⟩
  have hmem : path ∈ pool.issued catalog.config paths :=
    (pool.perm_issued catalog.config paths).mem_iff.mpr hmem
  rw [perform_load hc hp]
  refine ⟨_, catalog.table.merge (s.batchOf catalog.config pool paths), rfl, ?_,
    load_of_read (s.isBatch_batchOf catalog.config pool paths) hb hmem⟩
  simp [filled_eq, OrderedMap.get?_insert]

/-- Two files were loaded and written again since: one now has a byte order mark, a character of two
bytes and a carriage return, the other a character that lacks its last byte. -/
def rewritten : Session :=
  let first : Path := ⟨.here, ["d", "a.js"]⟩
  let second : Path := ⟨.here, ["d", "b.js"]⟩
  (start .empty []).run [.edit (.write first []), .edit (.write second []), .create "w" [],
    .load "w" [⟨.here, ["d"]⟩],
    .edit (.write first [0xEF, 0xBB, 0xBF, 0xC3, 0xA9, 0x0D, 0x0A]),
    .edit (.write second [0x61, 0xE2, 0x82, 0x41])]

theorem bytes_of_rewritten :
    let first : Path := ⟨.here, ["d", "a.js"]⟩
    let second : Path := ⟨.here, ["d", "b.js"]⟩
    let whole : Bytes := [0xEF, 0xBB, 0xBF, 0xC3, 0xA9, 0x0D, 0x0A]
    let lacking : Bytes := [0x61, 0xE2, 0x82, 0x41]
    let loaded := (rewritten.perform (.load "w" [⟨.here, ["d"]⟩])).1
    rewritten.files.read first = .ok whole ∧ whole.toByteArray.IsValidUTF8 ∧
      rewritten.FirstNamed ⟨[(1, 0), (2, 1)]⟩ first.name 0 ∧
      (∃ record, (rewritten.perform (.refresh "w" first)).1.records[0]? = some record ∧
        record.bytes = whole) ∧
      rewritten.files.read second = .ok lacking ∧ ¬lacking.toByteArray.IsValidUTF8 ∧
      (⟨1, 0xE2, 2, .continuationByte⟩ : Utf8.Malformed).Describes lacking ∧
      .readFailed second (.encoding ⟨1, 0xE2, 2, .continuationByte⟩) ∈
        loaded.log.drop rewritten.log.length := by
  intro first second whole lacking loaded
  have hc : rewritten.catalogs.get? "w" = some ⟨{}, ⟨[(1, 0), (2, 1)]⟩⟩ := by cbv
  have hfirst : rewritten.files.read ⟨.here, ["d", "a.js"]⟩ =
      .ok [0xEF, 0xBB, 0xBF, 0xC3, 0xA9, 0x0D, 0x0A] := by cbv
  have hsecond : rewritten.files.read ⟨.here, ["d", "b.js"]⟩ = .ok [0x61, 0xE2, 0x82, 0x41] := by
    cbv
  have hp : ({} : Config).candidates rewritten.files [⟨.here, ["d"]⟩] =
      ([⟨.here, ["d", "a.js"]⟩, ⟨.here, ["d", "b.js"]⟩], none) := by cbv
  have htarget : rewritten.target? ⟨[(1, 0), (2, 1)]⟩ ⟨.here, ["d", "a.js"]⟩ = some 0 := by cbv
  have hdecode : Utf8.decode [0x61, 0xE2, 0x82, 0x41] =
      .error ⟨1, 0xE2, 2, .continuationByte⟩ := by cbv
  have hwhole : (Utf8.encode "\uFEFFé\r\n").toByteArray.IsValidUTF8 := by
    rw [Utf8.toByteArray_encode]
    exact String.isValidUTF8 _
  have hd := Utf8.decode_eq_error_iff.mp hdecode
  have hlacking : ¬([0x61, 0xE2, 0x82, 0x41] : Bytes).toByteArray.IsValidUTF8 :=
    hd.longest 4 (by decide) (by decide)
  have hnamed := target?_eq_some_iff.mp htarget
  obtain ⟨-, hrefresh⟩ := bytes_of_reading hc hfirst
  obtain ⟨hload, -⟩ := bytes_of_reading hc hsecond
  obtain ⟨_, _, -, -, -, -, hwarned, hdescribed⟩ := hload _ _ {} hp (by simp)
  obtain ⟨record, hr, hbytes, -⟩ := (hrefresh 0 hnamed).2.1 hwhole
  obtain ⟨error, he⟩ := hwarned.mpr hlacking
  obtain ⟨malformed, rfl, hm⟩ := hdescribed error he
  rw [hm.unique hd] at he
  exact ⟨hfirst, hwhole, hnamed, ⟨record, hr, hbytes⟩, hsecond, hlacking, hd, he⟩

end Session

end SourceAtlas
