import Mathlib
import SourceAtlas.Proofs.Session.Loading

/-! # Loads up to the order of issue

Which of the candidates of a load is issued which of the next ids is up to its workers, and so is the
order of the warnings. The rest is not: what a load leaves is told here but for this order. One worker
goes through the candidates in their order.
-/

namespace SourceAtlas

theorem FileSystem.filter_warnings (fs : FileSystem) (paths : List Path) :
    (fs.warnings paths).filter (·.level = .warning) = fs.warnings paths := by
  rw [List.filter_eq_self]
  intro event he
  obtain ⟨path, -, error, -, rfl⟩ := mem_warnings_iff.mp he
  rfl

namespace Session

def warnings (s : Session) : List Event :=
  s.log.filter (·.level = .warning)

def nextIds (s : Session) (count : ℕ) : List Int :=
  (List.range count).map fun i : ℕ => s.counter.next + i

/-- Whether a session is left by loading candidates into a catalog, in whatever order they are done
with, and has this table and answer. The next ids are issued. In the order of the candidates they
lead to records of the legible ones, and they come last in the table unless it has them already. The
other candidates are warned about. -/
structure Loaded (s : Session) (name : String) (catalog : Catalog) (paths : List Path)
    (t : Session) (table : Table) (ids : List Int) : Prop where
  counter : t.counter = ⟨s.counter.next + ids.length⟩
  perm_ids : ids.Perm (s.nextIds ids.length)
  records : ∃ new : List SourceFile, t.records = s.records ++ new.toArray ∧
    new.map (·.id) = s.nextIds ids.length
  warnings : t.warnings.Perm (s.warnings ++ s.files.warnings paths)
  catalogs : t.catalogs = s.catalogs.insert name { catalog with table }
  keys : table.keys = catalog.table.keys ++ ids.filter (· ∉ catalog.table.keys)
  get?_eq : ∀ id ∉ ids, table.get? id = catalog.table.get? id
  files : List.Forall₂ (fun path id => ∃ text, s.files.readSource path = .ok text ∧
    t.record? table id = some (SourceFile.ofDisk id text path)) (paths.filter s.files.Legible) ids

/-- Two sessions have the same tables of catalogs, the same records, the same ids to come and the
same warnings. -/
structure Alike (s s' : Session) : Prop where
  catalogs : s.catalogs = s'.catalogs
  records : s.records = s'.records
  counter : s.counter = s'.counter
  warnings : s.warnings = s'.warnings

variable {s t u : Session} {name : String} {catalog : Catalog} {config : Config}
  {paths more roots : List Path} {table other : Table} {ids moreIds : List Int} {pool pool' : Pool}

theorem nextIds_add {count : ℕ} (h : t.counter = ⟨s.counter.next + count⟩) (more : ℕ) :
    s.nextIds (count + more) = s.nextIds count ++ t.nextIds more := by
  rw [nextIds, nextIds, nextIds, List.range_add, List.map_append, List.map_map, h]
  congr 1
  refine List.map_congr_left fun i _ => ?_
  simp [add_assoc]

theorem warnings_filled (s : Session) (name : String) (catalog : Catalog) (paths : List Path)
    (batch : Table) :
    (s.filled name catalog paths batch).warnings = s.warnings ++ s.files.warnings paths := by
  have hnote : [Event.loaded (s.files.texts paths).length].filter (·.level = .warning) = [] := rfl
  simp only [warnings, filled_eq, List.filter_append, FileSystem.filter_warnings, hnote,
    List.append_nil]

/-- Pools that go through candidates in the same order have the same batch of them. -/
theorem batchOf_congr {config : Config}
    (hw : pool = pool' ∨ ∀ used ∈ [pool, pool'], used.size config.maxWorkers ≤ 1)
    (s : Session) (paths : List Path) :
    pool.issued config paths = pool'.issued config paths ∧
      s.batchOf config pool paths = s.batchOf config pool' paths := by
  rcases hw with rfl | hw
  · exact ⟨rfl, rfl⟩
  · have hp := hw pool (by simp)
    have hp' := hw pool' (by simp)
    rw [Pool.issued_of_le_one hp, Pool.issued_of_le_one hp', batchOf_of_le_one hp,
      batchOf_of_le_one hp']
    exact ⟨rfl, rfl⟩

/-- What any pool leaves of a load. -/
theorem loaded_filled (s : Session) (name : String) (catalog : Catalog) (pool : Pool)
    (paths : List Path) :
    s.Loaded name catalog paths
      (s.filled name catalog (pool.issued catalog.config paths)
        (s.batchOf catalog.config pool paths))
      (catalog.table.merge (s.batchOf catalog.config pool paths))
      (s.batchOf catalog.config pool paths).keys := by
  have hbatch := s.isBatch_batchOf catalog.config pool paths
  have hcount : (s.batchOf catalog.config pool paths).keys.length =
      (s.files.texts (pool.issued catalog.config paths)).length := by
    rw [OrderedMap.keys, List.length_map, ← hbatch.size_eq]
    rfl
  constructor
  case counter => rw [filled_eq, hcount]
  case perm_ids =>
    rw [hcount]
    exact hbatch.perm_keys
  case records => exact ⟨_, records_filled _ _ _ _ _, by rw [hcount, map_id_arrivals, nextIds]⟩
  case warnings =>
    rw [warnings_filled]
    exact ((pool.perm_issued catalog.config paths).filterMap _).append_left _
  case catalogs => rw [filled_eq]
  case keys => exact OrderedMap.keys_merge hbatch.nodup_keys
  case get?_eq =>
    intro id hid
    rw [OrderedMap.get?_merge hbatch.nodup_keys, OrderedMap.get?_eq_none_iff.mpr hid,
      Option.none_or]
  case files =>
    rw [OrderedMap.keys, List.forall₂_map_right_iff]
    exact (s.forall₂_batchOf catalog.config pool paths).imp fun path entry =>
      hbatch.record?_of_readAs (records_filled _ _ _ _ _) catalog.table

namespace Loaded

theorem mem_ids_iff (h : s.Loaded name catalog paths t table ids) {id : Int} :
    id ∈ ids ↔ s.counter.next ≤ id ∧ id < t.counter.next := by
  rw [h.perm_ids.mem_iff, h.counter, nextIds, List.mem_map]
  constructor
  · rintro ⟨i, hi, rfl⟩
    have hi := List.mem_range.mp hi
    dsimp only
    omega
  · rintro ⟨hl, hu⟩
    refine ⟨(id - s.counter.next).toNat, List.mem_range.mpr ?_, ?_⟩ <;> dsimp only at hu <;> omega

/-- What is alike was loaded if one of them was. -/
theorem of_alike {t' : Session} (h : s.Loaded name catalog paths t table ids) (ha : t'.Alike t) :
    s.Loaded name catalog paths t' table ids where
  counter := ha.counter.trans h.counter
  perm_ids := h.perm_ids
  records := ha.records ▸ h.records
  warnings := ha.warnings ▸ h.warnings
  catalogs := ha.catalogs.trans h.catalogs
  keys := h.keys
  get?_eq := h.get?_eq
  files := by
    simp only [record?, ha.records]
    exact h.files

section Later

variable (h : s.Loaded name catalog paths t table ids)
  (h' : t.Loaded name { catalog with table } more u other moreIds)
include h'

/-- What an id leads to that is not issued by a load stays what it is. -/
theorem record?_of_later {id : Int} {record : SourceFile} (hid : id ∉ moreIds)
    (hr : t.record? table id = some record) : u.record? other id = some record := by
  obtain ⟨new, hnew, -⟩ := h'.records
  obtain ⟨handle, hh, hhandle⟩ := Option.bind_eq_some_iff.mp hr
  obtain ⟨hlt, -⟩ := Array.getElem?_eq_some_iff.mp hhandle
  rw [record?, h'.get?_eq id hid, hh, Option.bind_some, hnew, Array.getElem?_append_left hlt]
  exact hhandle

include h

theorem not_mem_of_later : ∀ id ∈ ids, id ∉ moreIds := by
  intro id hid hid'
  have hlower := (h.mem_ids_iff.mp hid).2
  have hupper := (h'.mem_ids_iff.mp hid').1
  omega

/-- What one load leaves after another is what a load of all their candidates leaves. -/
theorem append (hf : t.files = s.files) :
    s.Loaded name catalog (paths ++ more) u other (ids ++ moreIds) := by
  have hcount : s.nextIds (ids.length + moreIds.length) =
      s.nextIds ids.length ++ t.nextIds moreIds.length := nextIds_add h.counter _
  have hapart := h.not_mem_of_later h'
  constructor
  case counter =>
    rw [h'.counter, h.counter, List.length_append, Nat.cast_add, add_assoc]
  case perm_ids =>
    rw [List.length_append, hcount]
    exact h.perm_ids.append h'.perm_ids
  case records =>
    obtain ⟨new, hr, hnew⟩ := h.records
    obtain ⟨new', hr', hnew'⟩ := h'.records
    refine ⟨new ++ new', by rw [hr', hr]; simp, ?_⟩
    rw [List.map_append, hnew, hnew', List.length_append, hcount]
  case warnings =>
    have hw := h'.warnings
    rw [hf] at hw
    rw [FileSystem.warnings_append, ← List.append_assoc]
    exact hw.trans (h.warnings.append_right _)
  case catalogs => rw [h'.catalogs, h.catalogs, OrderedMap.insert_insert]
  case keys =>
    have hold : ∀ id ∈ moreIds, id ∉ table.keys ↔ id ∉ catalog.table.keys := by
      intro id hid
      rw [h.keys, List.mem_append, List.mem_filter]
      have hnew : id ∉ ids := fun hm => hapart id hm hid
      simp [hnew]
    rw [h'.keys, List.filter_append, ← List.append_assoc, ← h.keys]
    refine congrArg (table.keys ++ ·) (List.filter_congr fun id hid => ?_)
    simp only [hold id hid]
  case get?_eq =>
    intro id hid
    obtain ⟨hid, hid'⟩ := not_or.mp (List.mem_append.not.mp hid)
    exact (h'.get?_eq id hid').trans (h.get?_eq id hid)
  case files =>
    have hsecond := h'.files
    rw [hf] at hsecond
    obtain ⟨hl, hfirst⟩ := List.forall₂_iff_zip.mp h.files
    rw [List.filter_append]
    refine List.rel_append (List.forall₂_iff_zip.mpr ⟨hl, fun {path id} hm => ?_⟩) hsecond
    obtain ⟨text, ht, hrecord⟩ := hfirst hm
    exact ⟨text, ht, h'.record?_of_later (hapart id (List.of_mem_zip hm).2) hrecord⟩

end Later

end Loaded

end Session

end SourceAtlas
