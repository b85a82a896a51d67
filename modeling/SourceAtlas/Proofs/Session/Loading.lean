import Mathlib
import SourceAtlas.Proofs.Session.Taking
import SourceAtlas.Proofs.Text.Utf8

/-! # What a load does

A load makes a record for each candidate whose bytes can be read and are well-formed, and warns
about each of the others. The records have the next ids and come last in the table, unless the table
has one of these ids already, which then keeps its place.
-/

namespace SourceAtlas

namespace FileSystem

variable {fs : FileSystem} {path : Path} {paths : List Path} {text : String}

/-- Whether the file at a path can be read and holds well-formed bytes. -/
def Legible (fs : FileSystem) (path : Path) : Prop :=
  ∃ bytes, fs.read path = .ok bytes ∧ bytes.toByteArray.IsValidUTF8

theorem readSource_eq_ok_iff :
    fs.readSource path = .ok text ↔ fs.read path = .ok (Utf8.encode text) := by
  unfold readSource
  split
  · next hr => simp [hr]
  · next bytes hr =>
    rw [hr, Except.ok.injEq, ← Utf8.decode_eq_ok_iff]
    split
    · next hd => rw [hd, Except.ok.injEq, Except.ok.injEq]
    · next hd => simp [hd]

theorem legible_iff : fs.Legible path ↔ ∃ text, fs.readSource path = .ok text := by
  constructor
  · rintro ⟨bytes, hr, hv⟩
    have he : (Utf8.encode (String.fromUTF8 _ hv)).toByteArray = bytes.toByteArray :=
      Utf8.toByteArray_encode _
    refine ⟨String.fromUTF8 _ hv, readSource_eq_ok_iff.mpr ?_⟩
    have hb := congrArg (·.data.toList) he
    simp only [List.toList_data_toByteArray] at hb
    rw [hr, hb]
  · rintro ⟨text, ht⟩
    refine ⟨_, readSource_eq_ok_iff.mp ht, ?_⟩
    rw [Utf8.toByteArray_encode]
    exact text.isValidUTF8

instance (fs : FileSystem) (path : Path) : Decidable (fs.Legible path) :=
  decidable_of_iff ((fs.readSource path).isOk) <| by
    rw [legible_iff]
    cases fs.readSource path <;> simp [Except.isOk, Except.toBool]

/-- The texts are those of the legible files. -/
theorem map_fst_texts (fs : FileSystem) (paths : List Path) :
    (fs.texts paths).map (·.1) = paths.filter fs.Legible := by
  induction paths with
  | nil => rfl
  | cons path rest ih =>
    cases h : fs.readSource path with
    | ok source =>
      rw [texts_cons_of_ok h, List.filter_cons_of_pos (by simp [legible_iff, h]), List.map_cons, ih]
    | error e =>
      rw [texts_cons_of_error h, List.filter_cons_of_neg (by simp [legible_iff, h]), ih]

theorem map_path_arrivals (fs : FileSystem) (paths : List Path) (next : Int) :
    (arrivals next (fs.texts paths)).map (·.path) = (paths.filter fs.Legible).map some := by
  rw [← fs.map_fst_texts]
  apply List.ext_getElem <;> simp [arrivals, SourceFile.ofDisk, SourceFile.make]

/-- Each legible file becomes a record with its path and its bytes. -/
theorem forall₂_arrivals (fs : FileSystem) (paths : List Path) (next : Int) :
    List.Forall₂ (fun path record => record.path = some path ∧ fs.read path = .ok record.bytes)
      (paths.filter fs.Legible) (arrivals next (fs.texts paths)) := by
  induction paths generalizing next with
  | nil => exact .nil
  | cons path rest ih =>
    cases h : fs.readSource path with
    | ok source =>
      rw [texts_cons_of_ok h, List.filter_cons_of_pos (by simp [legible_iff, h]), arrivals_cons]
      exact .cons ⟨rfl, readSource_eq_ok_iff.mp h⟩ (ih _)
    | error e =>
      rw [texts_cons_of_error h, List.filter_cons_of_neg (by simp [legible_iff, h])]
      exact ih next

/-- Each legible file has the entry of its record. -/
theorem forall₂_filter_legible {fs : FileSystem} {next : Int} {size : ℕ} {new : List SourceFile}
    {outcomes : List (Option (Int × Handle))}
    (h : List.Forall₂ (CameOf fs next size new) paths outcomes) :
    List.Forall₂ (ReadAs fs next size new) (paths.filter fs.Legible) (outcomes.filterMap id) := by
  induction h with
  | nil => exact .nil
  | @cons path outcome _ _ hcame _ ih =>
    cases outcome with
    | none =>
      obtain ⟨error, he⟩ := hcame
      rwa [List.filter_cons_of_neg (by simp [legible_iff, he])]
    | some entry =>
      have hread : ReadAs fs next size new path entry := hcame
      obtain ⟨_, text, -, ht, -⟩ := hread
      rw [List.filter_cons_of_pos (by simp [legible_iff, ht])]
      exact .cons hcame ih

/-- Each other file is warned about. -/
theorem forall₂_warnings (fs : FileSystem) (paths : List Path) :
    List.Forall₂ (fun path event => ∃ error, fs.readSource path = .error error ∧
        event = .readFailed path error)
      (paths.filter fun path => ¬fs.Legible path) (fs.warnings paths) := by
  induction paths with
  | nil => exact .nil
  | cons path rest ih =>
    cases h : fs.readSource path with
    | ok source =>
      rw [warnings_cons_of_ok h, List.filter_cons_of_neg (by simp [legible_iff, h])]
      exact ih
    | error e =>
      rw [warnings_cons_of_error h, List.filter_cons_of_pos (by simp [legible_iff, h])]
      exact .cons ⟨e, h, rfl⟩ ih

end FileSystem

namespace Session

variable {s : Session} {name : String} {catalog : Catalog} {roots paths : List Path}

theorem perform_load (hc : s.catalogs.get? name = some catalog)
    (hp : catalog.config.candidates s.files roots = (paths, none)) (pool : Pool) :
    s.perform (.load name roots pool) =
      (s.filled name catalog (pool.issued catalog.config paths)
        (s.batchOf catalog.config pool paths),
        .ok (.ids (s.batchOf catalog.config pool paths).keys)) := by
  simp only [perform, withCatalog, hc, load_of_none hp]
  rfl

theorem forall₂_batchOf (s : Session) (config : Config) (pool : Pool) (paths : List Path) :
    List.Forall₂ (ReadAs s.files s.counter.next s.records.size
        (arrivals s.counter.next (s.files.texts (pool.issued config paths))))
      (paths.filter s.files.Legible) (s.batchOf config pool paths).entries :=
  FileSystem.forall₂_filter_legible (s.forall₂_collect_outcomes config pool paths)

theorem length_texts_issued (s : Session) (config : Config) (pool : Pool) (paths : List Path) :
    (s.files.texts (pool.issued config paths)).length = (paths.filter s.files.Legible).length := by
  have hperm := (pool.perm_issued config paths).filter (decide <| s.files.Legible ·)
  rw [← hperm.length_eq, ← s.files.map_fst_texts, List.length_map]

/-- The handles of a batch follow from its ids. -/
theorem IsBatch.entries_eq {batch : Table} (h : s.IsBatch paths batch) :
    batch.entries =
      batch.keys.map fun id => (id, s.records.size + (id - s.counter.next).toNat) := by
  have hentry : ∀ entry ∈ batch.entries,
      (entry.1, s.records.size + (entry.1 - s.counter.next).toNat) = entry := by
    intro entry he
    obtain ⟨i, -, rfl⟩ := h.mem_entries_iff.mp he
    simp
  rw [OrderedMap.keys, List.map_map]
  exact (List.map_congr_left hentry).trans (List.map_id _) |>.symm

/-- A load whose candidates are known is done with them in some order in which its workers can be
done, which is their own order if there is one worker. In that order it keeps a record with the path
and the bytes of each legible candidate, under the ids from the counter on, and warns about each of
the others. It answers the new ids in the order of the candidates. The table has them last, in this
order, but for those that it had already, which keep their places; it leads from the new ids to the
new records and from any other to what it led to before. -/
theorem load_of_candidates (hc : s.catalogs.get? name = some catalog)
    (hp : catalog.config.candidates s.files roots = (paths, none)) (pool : Pool) :
    let workers := pool.size catalog.config.maxWorkers
    let count := (paths.filter s.files.Legible).length
    let next := (List.range count).map fun i : ℕ => s.counter.next + i
    ∃ (issued : List Path) (new : List SourceFile) (warnings : List Event) (ids : List Int)
      (table : Table),
      s.perform (.load name roots pool) =
        ({ s with
            counter := ⟨s.counter.next + count⟩
            records := s.records ++ new.toArray
            catalogs := s.catalogs.insert name { catalog with table }
            log := s.log ++ warnings ++ [.loaded count] }, .ok (.ids ids)) ∧
      issued.Perm paths ∧ (0 < workers → Pool.Finishes workers paths issued) ∧
      (workers ≤ 1 → issued = paths ∧ ids = next) ∧
      new.map (·.id) = next ∧
      List.Forall₂ (fun path record =>
        record.path = some path ∧ s.files.read path = .ok record.bytes)
          (issued.filter s.files.Legible) new ∧
      List.Forall₂ (fun path event =>
        ∃ error, s.files.readSource path = .error error ∧ event = .readFailed path error)
          (issued.filter fun path => ¬s.files.Legible path) warnings ∧
      ids.length + warnings.length = paths.length ∧
      ids.Perm next ∧
      List.Forall₂ (fun path id => ∃ record ∈ new, record.id = id ∧ record.path = some path ∧
        s.files.read path = .ok record.bytes) (paths.filter s.files.Legible) ids ∧
      table.keys = catalog.table.keys ++ ids.filter (· ∉ catalog.table.keys) ∧
      (∀ i < count, table.get? (s.counter.next + i) = some (s.records.size + i)) ∧
      (∀ id ∉ ids, table.get? id = catalog.table.get? id) ∧
      ((∀ id ∈ ids, id ∉ catalog.table.keys) → table.entries = catalog.table.entries ++
        ids.map fun id => (id, s.records.size + (id - s.counter.next).toNat)) := by
  intro workers count next
  have hbatch := s.isBatch_batchOf catalog.config pool paths
  have hcount := s.length_texts_issued catalog.config pool paths
  have hperm := pool.perm_issued catalog.config paths
  have hkeys := hbatch.perm_keys
  have hn := hbatch.nodup_keys
  have hwarnings := s.files.forall₂_warnings (pool.issued catalog.config paths)
  rw [hcount] at hkeys
  refine ⟨pool.issued catalog.config paths,
    arrivals s.counter.next (s.files.texts (pool.issued catalog.config paths)),
    s.files.warnings (pool.issued catalog.config paths), (s.batchOf catalog.config pool paths).keys,
    catalog.table.merge (s.batchOf catalog.config pool paths), ?_, hperm,
    fun hw => Pool.finishes_issued hw paths, ?_, ?_, s.files.forall₂_arrivals _ _, hwarnings, ?_,
    hkeys, ?_, OrderedMap.keys_merge hn, ?_, ?_, ?_⟩
  · rw [perform_load hc hp, filled_eq, hcount]
  · intro hw
    refine ⟨Pool.issued_of_le_one hw paths, ?_⟩
    rw [batchOf_of_le_one hw, ← Pool.issued_of_le_one hw paths, hcount]
    exact map_fst_arrivalEntries _ _ _
  · rw [map_id_arrivals, hcount]
  · have hsplit := List.length_eq_length_filter_add (l := pool.issued catalog.config paths)
      (s.files.Legible ·)
    rw [hkeys.length_eq, ← hwarnings.length_eq, List.length_map, List.length_range,
      ← (hperm.filter _).length_eq, ← hperm.length_eq]
    simpa using hsplit.symm
  · rw [OrderedMap.keys, List.forall₂_map_right_iff]
    refine (s.forall₂_batchOf catalog.config pool paths).imp ?_
    rintro path _ ⟨i, text, rfl, ht, hr⟩
    exact ⟨_, List.mem_of_getElem? hr, rfl, rfl, FileSystem.readSource_eq_ok_iff.mp ht⟩
  · intro i hi
    rw [OrderedMap.get?_merge hn, hbatch.get?_eq (hcount ▸ hi), Option.some_or]
  · intro id hid
    rw [OrderedMap.get?_merge hn, OrderedMap.get?_eq_none_iff.mpr hid, Option.none_or]
  · intro hnew
    rw [OrderedMap.entries_merge_of_new hn hnew, hbatch.entries_eq]

/-- A file was loaded; beside it are now one that is not well-formed, a link that leads nowhere and
another file. -/
def mixedFiles : Session :=
  (start .empty []).run [.edit (.write ⟨.here, ["d", "a.js"]⟩ [0x61]), .create "w" [],
    .load "w" [⟨.here, ["d"]⟩], .edit (.write ⟨.here, ["d", "b.js"]⟩ [0xFF]),
    .edit (.link ⟨.here, ["d", "c.js"]⟩ "gone"), .edit (.write ⟨.here, ["d", "e.js"]⟩ [0x62])]

/-- Two workers, one of which is done with the first file only in the end. -/
def latePool : Pool :=
  ⟨2, [1, 1, 1]⟩

theorem load_of_mixedFiles :
    mixedFiles.catalogs.get? "w" = some ⟨{}, ⟨[(1, 0)]⟩⟩ ∧
      ({} : Config).candidates mixedFiles.files [⟨.here, ["d"]⟩] =
        (["a.js", "b.js", "c.js", "e.js"].map fun name => ⟨.here, ["d", name]⟩, none) ∧
      (mixedFiles.perform (.load "w" [⟨.here, ["d"]⟩] latePool)).2 = .ok (.ids [3, 2]) ∧
      ∃ warnings, warnings.length = 2 ∧
        (mixedFiles.perform (.load "w" [⟨.here, ["d"]⟩] latePool)).1.log =
          mixedFiles.log ++ warnings ++ [.loaded 2] := by
  have hc : mixedFiles.catalogs.get? "w" = some ⟨{}, ⟨[(1, 0)]⟩⟩ := by cbv
  have hp : ({} : Config).candidates mixedFiles.files [⟨.here, ["d"]⟩] =
      (["a.js", "b.js", "c.js", "e.js"].map fun name => ⟨.here, ["d", name]⟩, none) := by cbv
  have hids : (mixedFiles.perform (.load "w" [⟨.here, ["d"]⟩] latePool)).2 =
      .ok (.ids [3, 2]) := by cbv
  obtain ⟨issued, new, warnings, ids, table, hl, -, -, -, -, -, -, hlength, hperm, -⟩ :=
    load_of_candidates hc hp latePool
  rw [hl] at hids
  obtain rfl := Answer.ids.inj (Except.ok.inj hids)
  have hcount := hperm.length_eq
  rw [List.length_map, List.length_range] at hcount
  refine ⟨hc, hp, by rw [hl], warnings, Nat.add_left_cancel hlength, ?_⟩
  rw [hl, ← hcount]
  rfl

/-- A record was put under the id that is issued next. -/
def takenId : Session :=
  (start .empty []).run [.edit (.write ⟨.here, ["a.js"]⟩ []), .create "w" [],
    .add "w" (.full "" "n" none 1 (.text "script"))]

/-- The record that was put under an id by hand gives way to the one that is issued the id. -/
theorem load_of_takenId :
    takenId.catalogs.get? "w" = some ⟨{}, ⟨[(1, 0)]⟩⟩ ∧
      ({} : Config).candidates takenId.files [⟨.here, ["a.js"]⟩] = ([⟨.here, ["a.js"]⟩], none) ∧
      (takenId.perform (.load "w" [⟨.here, ["a.js"]⟩])).2 = .ok (.ids [1]) ∧
      ¬∃ table, (takenId.perform (.load "w" [⟨.here, ["a.js"]⟩])).1.catalogs.get? "w" =
        some ⟨{}, table⟩ ∧ table.entries = [(1, 0)] ++ [(1, 1)] := by
  have hc : (takenId.perform (.load "w" [⟨.here, ["a.js"]⟩])).1.catalogs.get? "w" =
      some ⟨{}, ⟨[(1, 1)]⟩⟩ := by cbv
  refine ⟨by cbv, by cbv, by cbv, ?_⟩
  rintro ⟨table, ht, hentries⟩
  obtain rfl : ⟨[(1, 1)]⟩ = table := (Catalog.mk.inj (Option.some.inj (hc.symm.trans ht))).2
  revert hentries
  decide

end Session

end SourceAtlas
