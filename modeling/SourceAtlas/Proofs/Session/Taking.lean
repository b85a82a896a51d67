import SourceAtlas.Proofs.OrderedMap
import SourceAtlas.Proofs.Session.Pool
import SourceAtlas.Session.Step

/-! # Reading files into a session

Reading a list of files leaves, in one go, a record for each file that can be read, in their order
and under consecutive ids, and a warning for each of the others, in theirs. A pool reads the
candidates of a load in an order of its own. The batch of a read is the new ids with the handles of
the new records, in the order of the candidates.
-/

namespace SourceAtlas

/-- The files of a list that can be read, with their texts. -/
def FileSystem.texts (fs : FileSystem) (paths : List Path) : List (Path × String) :=
  paths.filterMap fun path => match fs.readSource path with
    | .ok source => some (path, source)
    | .error _ => none

def FileSystem.warnings (fs : FileSystem) (paths : List Path) : List Event :=
  paths.filterMap fun path => match fs.readSource path with
    | .ok _ => none
    | .error e => some (.readFailed path e)

/-- What comes of reading files one after the other: the next id and handle for each that can be
read. -/
def FileSystem.outcomes (fs : FileSystem) : Int → ℕ → List Path → List (Option (Int × Handle))
  | _, _, [] => []
  | next, size, path :: rest =>
    match fs.readSource path with
    | .ok _ => some (next, size) :: fs.outcomes (next + 1) (size + 1) rest
    | .error _ => none :: fs.outcomes next size rest

namespace FileSystem

variable {fs : FileSystem} {path : Path} {paths : List Path} {source : String} {error : ReadError}

theorem texts_cons_of_ok (h : fs.readSource path = .ok source) :
    fs.texts (path :: paths) = (path, source) :: fs.texts paths := by
  simp [texts, h]

theorem texts_cons_of_error (h : fs.readSource path = .error error) :
    fs.texts (path :: paths) = fs.texts paths := by
  simp [texts, h]

theorem warnings_cons_of_ok (h : fs.readSource path = .ok source) :
    fs.warnings (path :: paths) = fs.warnings paths := by
  simp [warnings, h]

theorem warnings_cons_of_error (h : fs.readSource path = .error error) :
    fs.warnings (path :: paths) = .readFailed path error :: fs.warnings paths := by
  simp [warnings, h]

theorem outcomes_cons_of_ok (h : fs.readSource path = .ok source) (next : Int) (size : ℕ) :
    fs.outcomes next size (path :: paths) =
      some (next, size) :: fs.outcomes (next + 1) (size + 1) paths := by
  simp only [outcomes, h]

theorem outcomes_cons_of_error (h : fs.readSource path = .error error) (next : Int) (size : ℕ) :
    fs.outcomes next size (path :: paths) = none :: fs.outcomes next size paths := by
  simp only [outcomes, h]

@[simp] theorem length_outcomes (fs : FileSystem) (next : Int) (size : ℕ) (paths : List Path) :
    (fs.outcomes next size paths).length = paths.length := by
  induction paths generalizing next size with
  | nil => rfl
  | cons path rest ih => cases h : fs.readSource path <;> simp [outcomes, h, ih]

theorem warnings_append (fs : FileSystem) (paths more : List Path) :
    fs.warnings (paths ++ more) = fs.warnings paths ++ fs.warnings more := by
  simp [warnings]

theorem mem_warnings_iff {event : Event} : event ∈ fs.warnings paths ↔ ∃ path ∈ paths, ∃ error,
    fs.readSource path = .error error ∧ event = .readFailed path error := by
  simp only [warnings, List.mem_filterMap]
  constructor
  · rintro ⟨path, hp, h⟩
    cases hr : fs.readSource path with
    | ok text => simp [hr] at h
    | error error => exact ⟨path, hp, error, hr, by simpa [hr, eq_comm] using h⟩
  · rintro ⟨path, hp, error, hr, rfl⟩
    exact ⟨path, hp, by simp [hr]⟩

end FileSystem

/-- The records of files that were read, with consecutive ids. -/
def arrivals (next : Int) (texts : List (Path × String)) : List SourceFile :=
  texts.mapIdx fun (i : ℕ) text => SourceFile.ofDisk (next + i) text.2 text.1

def arrivalEntries (next : Int) (size count : ℕ) : List (Int × Handle) :=
  (List.range count).map fun i : ℕ => (next + i, size + i)

theorem arrivals_cons (next : Int) (text : Path × String) (texts : List (Path × String)) :
    arrivals next (text :: texts) =
      SourceFile.ofDisk next text.2 text.1 :: arrivals (next + 1) texts := by
  simp only [arrivals, List.mapIdx_cons, Nat.cast_zero, add_zero, Nat.cast_add, Nat.cast_one,
    add_assoc, add_comm (1 : Int)]

theorem arrivalEntries_succ (next : Int) (size count : ℕ) :
    arrivalEntries next size (count + 1) =
      (next, size) :: arrivalEntries (next + 1) (size + 1) count := by
  simp only [arrivalEntries, List.range_succ_eq_map, List.map_cons, List.map_map, Nat.cast_zero,
    add_zero, Function.comp_def, Nat.cast_succ, add_assoc, add_comm (1 : Int), add_comm 1]

@[simp] theorem length_arrivals (next : Int) (texts : List (Path × String)) :
    (arrivals next texts).length = texts.length := by
  simp [arrivals]

@[simp] theorem length_arrivalEntries (next : Int) (size count : ℕ) :
    (arrivalEntries next size count).length = count := by
  simp [arrivalEntries]

theorem mem_arrivalEntries {next : Int} {size count : ℕ} {entry : Int × Handle} :
    entry ∈ arrivalEntries next size count ↔
      ∃ i < count, entry = (next + i, size + i) := by
  simp [arrivalEntries, eq_comm]

theorem map_fst_arrivalEntries (next : Int) (size count : ℕ) :
    (arrivalEntries next size count).map (·.1) = (List.range count).map fun i : ℕ => next + i := by
  simp [arrivalEntries]

theorem nodup_arrivalEntries (next : Int) (size count : ℕ) :
    ((arrivalEntries next size count).map (·.1)).Nodup := by
  rw [map_fst_arrivalEntries]
  refine List.nodup_range.map fun a b h => ?_
  have h : next + (a : Int) = next + b := h
  omega

theorem map_id_arrivals (next : Int) (texts : List (Path × String)) :
    (arrivals next texts).map (·.id) = (List.range texts.length).map fun i : ℕ => next + i := by
  induction texts generalizing next with
  | nil => rfl
  | cons text rest ih =>
    rw [arrivals_cons, List.map_cons, ih, List.length_cons, List.range_succ_eq_map, List.map_cons,
      List.map_map]
    simp [SourceFile.ofDisk, SourceFile.make, Function.comp_def, add_assoc, add_comm (1 : Int)]

theorem exists_of_mem_arrivals {fs : FileSystem} {paths : List Path} {next : Int}
    {file : SourceFile} (h : file ∈ arrivals next (fs.texts paths)) :
    ∃ id path text, fs.readSource path = .ok text ∧ file = SourceFile.ofDisk id text path := by
  obtain ⟨i, hi, rfl⟩ := List.mem_mapIdx.mp h
  obtain ⟨path, -, hp⟩ := List.mem_filterMap.mp (List.getElem_mem hi)
  split at hp
  · next text ht =>
    exact ⟨_, path, text, ht, by rw [← Option.some.inj hp]⟩
  · cases hp

theorem filterMap_outcomes (fs : FileSystem) (next : Int) (size : ℕ) (paths : List Path) :
    (fs.outcomes next size paths).filterMap id =
      arrivalEntries next size (fs.texts paths).length := by
  induction paths generalizing next size with
  | nil => rfl
  | cons path rest ih =>
    cases h : fs.readSource path with
    | error e =>
      rw [FileSystem.outcomes_cons_of_error h, FileSystem.texts_cons_of_error h,
        List.filterMap_cons]
      exact ih next size
    | ok source =>
      rw [FileSystem.outcomes_cons_of_ok h, FileSystem.texts_cons_of_ok h, List.filterMap_cons,
        List.length_cons, arrivalEntries_succ]
      exact congrArg ((next, size) :: ·) (ih (next + 1) (size + 1))

/-- Among new records, the one that an entry leads to was made of the file at a path. -/
def ReadAs (fs : FileSystem) (next : Int) (size : ℕ) (new : List SourceFile) (path : Path)
    (entry : Int × Handle) : Prop :=
  ∃ (i : ℕ) (text : String), entry = (next + i, size + i) ∧ fs.readSource path = .ok text ∧
    new[i]? = some (SourceFile.ofDisk (next + i) text path)

/-- What came of a file: the entry of its record, or nothing if it cannot be read. -/
def CameOf (fs : FileSystem) (next : Int) (size : ℕ) (new : List SourceFile) (path : Path)
    (outcome : Option (Int × Handle)) : Prop :=
  match outcome with
  | some entry => ReadAs fs next size new path entry
  | none => ∃ error, fs.readSource path = .error error

theorem ReadAs.cons {fs : FileSystem} {next : Int} {size : ℕ} {new : List SourceFile} {path : Path}
    {entry : Int × Handle} (h : ReadAs fs (next + 1) (size + 1) new path entry)
    (record : SourceFile) : ReadAs fs next size (record :: new) path entry := by
  obtain ⟨i, text, rfl, ht, hr⟩ := h
  have hid : next + 1 + (i : Int) = next + (i + 1 : ℕ) := by omega
  have hhandle : size + 1 + i = size + (i + 1) := by omega
  exact ⟨i + 1, text, by rw [hid, hhandle], ht, by rwa [List.getElem?_cons_succ, ← hid]⟩

theorem forall₂_outcomes (fs : FileSystem) (next : Int) (size : ℕ) (paths : List Path) :
    List.Forall₂ (CameOf fs next size (arrivals next (fs.texts paths))) paths
      (fs.outcomes next size paths) := by
  induction paths generalizing next size with
  | nil => exact .nil
  | cons path rest ih =>
    cases h : fs.readSource path with
    | error e =>
      rw [FileSystem.outcomes_cons_of_error h, FileSystem.texts_cons_of_error h]
      exact .cons ⟨e, h⟩ (ih next size)
    | ok source =>
      rw [FileSystem.outcomes_cons_of_ok h, FileSystem.texts_cons_of_ok h, arrivals_cons]
      refine .cons ⟨0, source, by simp, h, by simp⟩ ((ih (next + 1) (size + 1)).imp ?_)
      rintro other (_ | entry) hcame
      · exact hcame
      · exact ReadAs.cons hcame _

/-! ## Pools -/

def Pool.issued (pool : Pool) (config : Config) (paths : List Path) : List Path :=
  (pool.order config.maxWorkers paths.zipIdx).map (·.1)

theorem Pool.perm_issued (pool : Pool) (config : Config) (paths : List Path) :
    (pool.issued config paths).Perm paths := by
  have hperm := (perm_arrange (pool.size config.maxWorkers) pool.picks paths.zipIdx).map (·.1)
  rwa [List.zipIdx_map_fst] at hperm

theorem Pool.finishes_issued {pool : Pool} {config : Config} (h : 0 < pool.size config.maxWorkers)
    (paths : List Path) : Finishes (pool.size config.maxWorkers) paths (pool.issued config paths) := by
  have hfinishes : Finishes (pool.size config.maxWorkers) paths.zipIdx
      (pool.order config.maxWorkers paths.zipIdx) := (finishes_iff h).mpr ⟨pool.picks, rfl⟩
  have hpaths := hfinishes.map Prod.fst
  rwa [List.zipIdx_map_fst] at hpaths

/-- A single worker reads paths in their order. -/
theorem Pool.issued_of_le_one {pool : Pool} {config : Config}
    (h : pool.size config.maxWorkers ≤ 1) (paths : List Path) : pool.issued config paths = paths := by
  rw [issued, order, arrange_of_le_one h, List.zipIdx_map_fst]

namespace Session

variable {s : Session} {name : String} {catalog : Catalog} {config : Config}
  {roots paths : List Path} {batch : Table} {pool : Pool}

theorem take_of_ok {path : Path} {source : String}
    (h : s.files.readSource path = .ok source) :
    s.take path =
      ({ s with
          counter := ⟨s.counter.next + 1⟩
          records := s.records.push (SourceFile.ofDisk s.counter.next source path) },
        some (s.counter.next, s.records.size)) := by
  simp only [take, h, IdCounter.issue, keep]

theorem take_of_error {path : Path} {error : ReadError}
    (h : s.files.readSource path = .error error) :
    s.take path = (s.emit (.readFailed path error), none) := by
  simp only [take, h]

/-- What reading files leaves, and what comes of each. -/
theorem takeAll_eq (s : Session) (paths : List Path) :
    s.takeAll paths =
      ({ s with
          counter := ⟨s.counter.next + (s.files.texts paths).length⟩
          records := s.records ++ (arrivals s.counter.next (s.files.texts paths)).toArray
          log := s.log ++ s.files.warnings paths },
        s.files.outcomes s.counter.next s.records.size paths) := by
  induction paths generalizing s with
  | nil => simp [takeAll, FileSystem.texts, FileSystem.warnings, FileSystem.outcomes, arrivals]
  | cons path rest ih =>
    cases h : s.files.readSource path with
    | error e =>
      simp only [takeAll, take_of_error h, ih, FileSystem.texts_cons_of_error h,
        FileSystem.warnings_cons_of_error h, emit]
      rw [FileSystem.outcomes_cons_of_error h]
      simp
    | ok source =>
      simp only [takeAll, take_of_ok h, ih, FileSystem.texts_cons_of_ok h,
        FileSystem.warnings_cons_of_ok h, arrivals_cons, List.length_cons]
      rw [FileSystem.outcomes_cons_of_ok h]
      simp [add_assoc, add_comm]

/-! ## Batches -/

/-- Whether a table has the records of files that are read next, and no others. -/
def IsBatch (s : Session) (paths : List Path) (batch : Table) : Prop :=
  batch.entries.Perm
    (arrivalEntries s.counter.next s.records.size (s.files.texts paths).length)

def batchOf (s : Session) (config : Config) (pool : Pool) (paths : List Path) : Table :=
  ⟨(Pool.collect ((pool.order config.maxWorkers paths.zipIdx).map (·.2))
    (s.files.outcomes s.counter.next s.records.size (pool.issued config paths))).filterMap id⟩

theorem isBatch_batchOf (s : Session) (config : Config) (pool : Pool) (paths : List Path) :
    s.IsBatch (pool.issued config paths) (s.batchOf config pool paths) := by
  have hplaces := (Pool.perm_arrange (pool.size config.maxWorkers) pool.picks paths.zipIdx).map (·.2)
  have hl : (s.files.outcomes s.counter.next s.records.size (pool.issued config paths)).length =
      paths.length := (FileSystem.length_outcomes _ _ _ _).trans (pool.perm_issued config paths).length_eq
  rw [List.zipIdx_map_snd, ← List.range_eq_range', ← hl] at hplaces
  rw [IsBatch, ← filterMap_outcomes]
  exact (Pool.perm_collect hplaces).filterMap id

/-- A single worker has the new records in the order of their ids. -/
theorem batchOf_of_le_one (h : pool.size config.maxWorkers ≤ 1) (s : Session) (paths : List Path) :
    s.batchOf config pool paths =
      ⟨arrivalEntries s.counter.next s.records.size (s.files.texts paths).length⟩ := by
  have hl : paths.length = (s.files.outcomes s.counter.next s.records.size paths).length :=
    (FileSystem.length_outcomes _ _ _ _).symm
  rw [batchOf, Pool.issued_of_le_one h, Pool.order, Pool.arrange_of_le_one h,
    Pool.collect_zipIdx hl, filterMap_outcomes]

theorem forall₂_collect_outcomes (s : Session) (config : Config) (pool : Pool)
    (paths : List Path) :
    List.Forall₂ (CameOf s.files s.counter.next s.records.size
        (arrivals s.counter.next (s.files.texts (pool.issued config paths)))) paths
      (Pool.collect ((pool.order config.maxWorkers paths.zipIdx).map (·.2))
        (s.files.outcomes s.counter.next s.records.size (pool.issued config paths))) :=
  Pool.forall₂_collect (Pool.perm_arrange _ pool.picks _) (forall₂_outcomes _ _ _ _)

namespace IsBatch

variable (h : s.IsBatch paths batch)
include h

theorem perm_keys : batch.keys.Perm
    ((List.range (s.files.texts paths).length).map fun i : ℕ => s.counter.next + i) := by
  rw [← map_fst_arrivalEntries _ s.records.size]
  exact h.map (·.1)

theorem nodup_keys : batch.keys.Nodup := by
  refine h.perm_keys.nodup_iff.mpr ?_
  rw [← map_fst_arrivalEntries _ s.records.size]
  exact nodup_arrivalEntries _ _ _

theorem size_eq : batch.size = (s.files.texts paths).length := by
  rw [OrderedMap.size, h.length_eq, length_arrivalEntries]

theorem mem_entries_iff {entry : Int × Handle} : entry ∈ batch.entries ↔
    ∃ i < (s.files.texts paths).length, entry = (s.counter.next + i, s.records.size + i) := by
  rw [h.mem_iff, mem_arrivalEntries]

theorem mem_keys_iff {id : Int} : id ∈ batch.keys ↔
    ∃ i < (s.files.texts paths).length, id = s.counter.next + i := by
  rw [h.perm_keys.mem_iff]
  simp [eq_comm]

theorem get?_eq {i : ℕ} (hi : i < (s.files.texts paths).length) :
    batch.get? (s.counter.next + i) = some (s.records.size + i) :=
  OrderedMap.get?_of_mem h.nodup_keys (h.mem_entries_iff.mpr ⟨i, hi, rfl⟩)

theorem empty_merge : (OrderedMap.empty : Table).merge batch = batch :=
  OrderedMap.ofList_eq h.nodup_keys

section Merge

variable {s' : Session}
  (hr : s'.records = s.records ++ (arrivals s.counter.next (s.files.texts paths)).toArray)
include hr

/-- The ids of a batch lead to the new records once it has been merged. -/
theorem record?_merge (before : Table) {i : ℕ} (hi : i < (s.files.texts paths).length) :
    s'.record? (before.merge batch) (s.counter.next + i) =
      (arrivals s.counter.next (s.files.texts paths))[i]? := by
  rw [record?, OrderedMap.get?_merge h.nodup_keys, h.get?_eq hi, hr, Option.some_or,
    Option.bind_some, Array.getElem?_append_right (Nat.le_add_right _ _), Nat.add_sub_cancel_left,
    List.getElem?_toArray]

theorem record?_of_readAs (before : Table) {path : Path} {entry : Int × Handle}
    (hread : ReadAs s.files s.counter.next s.records.size
      (arrivals s.counter.next (s.files.texts paths)) path entry) :
    ∃ text, s.files.readSource path = .ok text ∧
      s'.record? (before.merge batch) entry.1 = some (SourceFile.ofDisk entry.1 text path) := by
  obtain ⟨i, text, rfl, ht, hnew⟩ := hread
  have hi : i < (s.files.texts paths).length := by
    rw [← length_arrivals s.counter.next]
    exact (List.getElem?_eq_some_iff.mp hnew).1
  exact ⟨text, ht, (h.record?_merge hr before hi).trans hnew⟩

end Merge

end IsBatch

/-! ## What is read and loaded -/

theorem read_of_some {error : FileError}
    (h : config.candidates s.files roots = (paths, some error)) :
    s.read config roots pool =
      ((s.takeAll (pool.issued config paths)).1, .error (.file error)) := by
  simp only [read, h]
  rfl

theorem read_of_none (h : config.candidates s.files roots = (paths, none)) :
    s.read config roots pool =
      ((s.takeAll (pool.issued config paths)).1, .ok (s.batchOf config pool paths)) := by
  have hb : (OrderedMap.ofList (s.batchOf config pool paths).entries : Table) =
      s.batchOf config pool paths := (s.isBatch_batchOf config pool paths).empty_merge
  have hresults : (s.takeAll (pool.issued config paths)).2 =
      s.files.outcomes s.counter.next s.records.size (pool.issued config paths) := by
    rw [takeAll_eq]
  rw [batchOf, ← hresults] at hb
  rw [batchOf, ← hresults, ← hb]
  simp only [read, h]
  rfl

/-- A session in which files were read and put into a catalog. -/
def filled (s : Session) (name : String) (catalog : Catalog) (paths : List Path) (batch : Table) :
    Session :=
  ((s.takeAll paths).1.emit (.loaded (s.files.texts paths).length)).setTable name catalog
    (catalog.table.merge batch)

theorem filled_eq (s : Session) (name : String) (catalog : Catalog) (paths : List Path)
    (batch : Table) :
    s.filled name catalog paths batch = { s with
      counter := ⟨s.counter.next + (s.files.texts paths).length⟩
      records := s.records ++ (arrivals s.counter.next (s.files.texts paths)).toArray
      catalogs := s.catalogs.insert name { catalog with table := catalog.table.merge batch }
      log := s.log ++ s.files.warnings paths ++ [.loaded (s.files.texts paths).length] } := by
  rw [filled, takeAll_eq]
  rfl

theorem records_takeAll (s : Session) (paths : List Path) :
    (s.takeAll paths).1.records =
      s.records ++ (arrivals s.counter.next (s.files.texts paths)).toArray := by
  rw [takeAll_eq]

theorem records_filled (s : Session) (name : String) (catalog : Catalog) (paths : List Path)
    (batch : Table) :
    (s.filled name catalog paths batch).records =
      s.records ++ (arrivals s.counter.next (s.files.texts paths)).toArray := by
  rw [filled_eq]

theorem record?_filled (h : s.IsBatch paths batch) (name : String) (catalog : Catalog) {i : ℕ}
    (hi : i < (s.files.texts paths).length) :
    (s.filled name catalog paths batch).record? (catalog.table.merge batch) (s.counter.next + i) =
      (arrivals s.counter.next (s.files.texts paths))[i]? :=
  h.record?_merge (records_filled s name catalog paths batch) catalog.table hi

theorem load_of_some {error : FileError}
    (h : catalog.config.candidates s.files roots = (paths, some error)) :
    s.load name catalog roots pool =
      ((s.takeAll (pool.issued catalog.config paths)).1, .error (.file error)) := by
  simp only [load, extend, read_of_some h]

theorem load_of_none (h : catalog.config.candidates s.files roots = (paths, none)) :
    s.load name catalog roots pool =
      (s.filled name catalog (pool.issued catalog.config paths)
        (s.batchOf catalog.config pool paths),
        .ok (s.batchOf catalog.config pool paths).keys) := by
  have hs := (s.isBatch_batchOf catalog.config pool paths).size_eq
  simp only [load, extend, read_of_none h, hs, filled]

/-! ## Loads into a new table -/

section NewTable

variable {s' : Session} {table : Table} {ids : List Int}

theorem filterMap_arrivalEntries (next : Int) (before new : List SourceFile) :
    (arrivalEntries next before.length new.length).filterMap
      (fun entry => (before ++ new)[entry.2]?) = new := by
  induction new generalizing next before with
  | nil => rfl
  | cons record rest ih =>
    have hrest := ih (next + 1) (before ++ [record])
    rw [List.append_assoc, List.singleton_append, List.length_append,
      List.length_singleton] at hrest
    rw [List.length_cons, arrivalEntries_succ, List.filterMap_cons, hrest]
    simp

theorem extend_of_none (h : config.candidates s.files roots = (paths, none)) :
    s.extend config .empty roots pool =
      ((s.takeAll (pool.issued config paths)).1.emit (.loaded (s.batchOf config pool paths).size),
        .ok (s.batchOf config pool paths, (s.batchOf config pool paths).keys)) := by
  simp only [extend, read_of_none h, (s.isBatch_batchOf config pool paths).empty_merge]

/-- The records of a load are those of the files that can be read among its candidates. -/
theorem perm_recordsOf_extend (h : s.extend config .empty roots pool = (s', .ok (table, ids))) :
    ∃ paths, config.candidates s.files roots = (paths, none) ∧ s'.grammar = s.grammar ∧
      (s'.recordsOf table).Perm
        (arrivals s.counter.next (s.files.texts (pool.issued config paths))) := by
  cases hc : config.candidates s.files roots with
  | mk paths failure =>
    cases failure with
    | some error =>
      simp only [extend, read_of_some hc] at h
      cases h
    | none =>
      rw [extend_of_none hc, takeAll_eq] at h
      obtain ⟨rfl, hok⟩ := Prod.mk.inj h
      obtain ⟨rfl, -⟩ := Prod.mk.inj (Except.ok.inj hok)
      refine ⟨paths, rfl, rfl, ?_⟩
      have hentries := filterMap_arrivalEntries s.counter.next s.records.toList
        (arrivals s.counter.next (s.files.texts (pool.issued config paths)))
      rw [length_arrivals, Array.length_toList] at hentries
      rw [recordsOf, OrderedMap.values, List.filterMap_map]
      refine ((s.isBatch_batchOf config pool paths).filterMap _).trans (.of_eq ?_)
      refine (List.filterMap_congr fun entry _ => ?_).trans hentries
      simp [emit, ← Array.getElem?_toList]

theorem exists_ofDisk_of_extend (h : s.extend config .empty roots pool = (s', .ok (table, ids)))
    {file : SourceFile} (hf : file ∈ s'.recordsOf table) :
    ∃ id path text, s.files.readSource path = .ok text ∧ file = SourceFile.ofDisk id text path := by
  obtain ⟨_, -, -, hr⟩ := perm_recordsOf_extend h
  exact exists_of_mem_arrivals (hr.mem_iff.mp hf)

end NewTable

end Session

end SourceAtlas
