import Mathlib
import SourceAtlas.Proofs.LineStarts
import SourceAtlas.Proofs.Session.Outcome
import SourceAtlas.Proofs.Suffix
import SourceAtlas.Proofs.Text.Utf8

/-! # Tables and their records

In every session that steps lead to, the ids of a table are those of its records, the text, the
bytes and the line index of a record belong together, and a record has the id, name, path and kind
that it was made with.
-/

namespace SourceAtlas.Session

variable {s s' s'' : Session} {handle : Handle} {record : SourceFile} {table : Table}
  {name : String} {catalog : Catalog} {step : Step} {outcome : Except Failure Answer}

/-! ## Records outlive steps -/

/-- Every record of the first session is, perhaps with another text, a record of the second. -/
def Keeps (s s' : Session) : Prop :=
  ∀ (handle : Handle) (record : SourceFile), s.records[handle]? = some record →
    ∃ record', s'.records[handle]? = some record' ∧ record.Rewritten record'

theorem Keeps.of_append {new : Array SourceFile} (h : s'.records = s.records ++ new) :
    Keeps s s' := by
  intro handle record hr
  refine ⟨record, ?_, .same⟩
  obtain ⟨hlt, -⟩ := Array.getElem?_eq_some_iff.mp hr
  rw [h, Array.getElem?_append_left hlt, hr]

theorem Keeps.of_eq (h : s'.records = s.records) : Keeps s s' :=
  .of_append (h.trans s.records.append_empty.symm)

theorem records_make {draft : Draft} (h : s.make draft = (s', .ok record)) :
    s'.records = s.records := by
  obtain ⟨⟨_, rfl⟩, -⟩ := make_of_ok h
  rfl

theorem records_add (s : Session) (name : String) (catalog : Catalog) (record : SourceFile) :
    (s.add name catalog record).records = s.records ++ #[record] := by
  rw [Array.append_singleton]
  rfl

theorem Performs.keeps (h : Performs s step s' outcome) : Keeps s s' := by
  cases h with
  | retouch h _ => exact fun _ _ hr => h.exists_rewritten hr
  | create => exact .of_eq rfl
  | take => exact .of_append (records_takeAll s _)
  | ofRoots | load => exact .of_append (records_filled s _ _ _ _)
  | loadBatch => exact .of_append (records_takeAll s _)
  | merge => exact .of_eq rfl
  | add _ hm => exact .of_append ((records_add _ _ _ _).trans (by rw [records_make hm]))

/-! ## Records are made coherent and stay so -/

/-- Every record has the bytes and the line index of its text. -/
def Coherent (s : Session) : Prop :=
  ∀ (handle : Handle) (record : SourceFile), s.records[handle]? = some record →
    record.snapshot = Snapshot.of record.source

def Binds (s : Session) (table : Table) : Prop :=
  ∀ (id : Int) (handle : Handle), (id, handle) ∈ table.entries →
    ∃ record, s.records[handle]? = some record ∧ record.id = id

structure Kept (s : Session) : Prop where
  coherent : s.Coherent
  binds : ∀ table, s.HasTable table → s.Binds table

theorem Coherent.append {new : Array SourceFile} (hs : s.Coherent)
    (hn : ∀ record ∈ new, record.snapshot = Snapshot.of record.source)
    (h : s'.records = s.records ++ new) : s'.Coherent := by
  intro handle record hr
  rw [h, Array.getElem?_append] at hr
  split_ifs at hr
  · exact hs handle record hr
  · exact hn record (Array.mem_of_getElem? hr)

theorem snapshot_of_mem_arrivals {next : Int} {texts : List (Path × String)}
    (h : record ∈ (arrivals next texts).toArray) :
    record.snapshot = Snapshot.of record.source := by
  obtain ⟨i, hi, rfl⟩ := List.mem_mapIdx.mp (List.mem_toArray.mp h)
  rfl

theorem snapshot_of_make {draft : Draft} (h : s.make draft = (s', .ok record)) :
    record.snapshot = Snapshot.of record.source := by
  obtain ⟨-, _, _, _, _, _, rfl⟩ := make_of_ok h
  rfl

theorem Performs.coherent (h : Performs s step s' outcome) (hs : s.Coherent) : s'.Coherent := by
  cases h with
  | retouch h _ =>
    intro handle record hr
    obtain ⟨original, ho, hw⟩ := h.exists_original hr
    exact hw.snapshot_eq (hs handle original ho)
  | create => exact hs
  | take => exact hs.append (fun _ => snapshot_of_mem_arrivals) (records_takeAll s _)
  | ofRoots | load =>
    exact hs.append (fun _ => snapshot_of_mem_arrivals) (records_filled s _ _ _ _)
  | loadBatch => exact hs.append (fun _ => snapshot_of_mem_arrivals) (records_takeAll s _)
  | merge => exact hs
  | add _ hm =>
    refine hs.append (fun record hr => ?_) ((records_add _ _ _ _).trans (by rw [records_make hm]))
    rw [Array.mem_singleton.mp hr]
    exact snapshot_of_make hm

/-! ## Tables lead to records -/

theorem Binds.mono (hb : s.Binds table) (h : Keeps s s') : s'.Binds table := by
  intro id handle he
  obtain ⟨record, hr, rfl⟩ := hb id handle he
  obtain ⟨record', hr', hw⟩ := h handle record hr
  exact ⟨record', hr', hw.id_eq⟩

theorem binds_empty (s : Session) : s.Binds .empty :=
  nofun

theorem Binds.merge {other : Table} (ha : s.Binds table) (hb : s.Binds other) :
    s.Binds (table.merge other) := by
  intro id handle he
  rcases OrderedMap.mem_entries_merge he with he | he
  · exact ha id handle he
  · exact hb id handle he

theorem IsBatch.binds {paths : List Path} {batch : Table} (h : s.IsBatch paths batch) :
    (s.takeAll paths).1.Binds batch := by
  intro id handle he
  obtain ⟨i, hi, he⟩ := h.mem_entries_iff.mp he
  obtain ⟨rfl, rfl⟩ := Prod.mk.inj he
  rw [records_takeAll, Array.getElem?_append_right (by omega)]
  simp [arrivals, List.getElem?_eq_getElem hi, SourceFile.ofDisk, SourceFile.make]

theorem HasTable.of_setTable {other : Table} (h : (s.setTable name catalog table).HasTable other) :
    other = table ∨ s.HasTable other := by
  rcases h with ⟨key, found, hf, rfl⟩ | hb
  · rw [setTable, OrderedMap.get?_insert] at hf
    split_ifs at hf
    · obtain rfl := Option.some.inj hf
      exact Or.inl rfl
    · exact Or.inr (Or.inl ⟨key, found, hf, rfl⟩)
  · exact Or.inr (Or.inr hb)

theorem HasTable.of_create {config : Config} (h : (s.create name config).HasTable table) :
    table = .empty ∨ s.HasTable table := by
  have h : (s.setTable name ⟨config, .empty⟩ .empty).HasTable table := h
  exact h.of_setTable

theorem HasTable.of_filled {paths : List Path} {batch : Table}
    (h : (s.filled name catalog paths batch).HasTable table) :
    table = catalog.table.merge batch ∨ s.HasTable table := by
  have h := HasTable.of_setTable h
  rwa [takeAll_eq] at h

theorem HasTable.of_loadBatch {target : String} {paths : List Path} {batch : Table}
    (h : ({ (s.takeAll paths).1 with
      batches := s.batches.insert target batch } : Session).HasTable table) :
    table = batch ∨ s.HasTable table := by
  rw [takeAll_eq] at h
  rcases h with hc | ⟨key, hb⟩
  · exact Or.inr (Or.inl hc)
  · rw [OrderedMap.get?_insert] at hb
    split_ifs at hb
    · exact Or.inl (Option.some.inj hb).symm
    · exact Or.inr (Or.inr ⟨key, hb⟩)

theorem hasTable_takeAll {paths : List Path} :
    (s.takeAll paths).1.HasTable table ↔ s.HasTable table := by
  rw [takeAll_eq]
  rfl

theorem hasTable_of_retouched (h : Retouched s s') : s'.HasTable table ↔ s.HasTable table := by
  rw [HasTable, HasTable, h.catalogs, h.batches]

theorem hasTable_of_make {draft : Draft} (h : s.make draft = (s', .ok record)) :
    s'.HasTable table ↔ s.HasTable table := by
  obtain ⟨⟨_, rfl⟩, -⟩ := make_of_ok h
  rfl

theorem Performs.binds (h : Performs s step s' outcome)
    (hs : ∀ table, s.HasTable table → s.Binds table) {table : Table} (ht : s'.HasTable table) :
    s'.Binds table := by
  have hk := h.keeps
  -- A table that was there before is bound by records that outlive the step.
  have old : s.HasTable table → s'.Binds table := fun ht => (hs table ht).mono hk
  cases h with
  | retouch h _ => exact old ((hasTable_of_retouched h).mp ht)
  | create =>
    rcases ht.of_create with rfl | ht
    · exact binds_empty _
    · exact old ht
  | take => exact old (hasTable_takeAll.mp ht)
  | ofRoots hb =>
    rcases HasTable.of_filled ht with rfl | ht
    · exact (binds_empty _).merge hb.binds
    · exact old ht
  | load hc hb =>
    rcases HasTable.of_filled ht with rfl | ht
    · exact ((hs _ (Or.inl ⟨_, _, hc, rfl⟩)).mono hk).merge hb.binds
    · exact old ht
  | loadBatch hb =>
    rcases HasTable.of_loadBatch ht with rfl | ht
    · exact hb.binds
    · exact old ht
  | merge hc hm =>
    rcases HasTable.of_setTable ht with rfl | ht
    · exact (hs _ (Or.inl ⟨_, _, hc, rfl⟩)).merge (hs _ hm)
    · exact old ht
  | add hc hm =>
    rcases HasTable.of_setTable ht with rfl | ht
    · intro id handle he
      rcases OrderedMap.mem_entries_insert he with he | he
      · obtain ⟨rfl, rfl⟩ := Prod.mk.inj he
        exact ⟨_, by rw [records_add, Array.getElem?_append_right le_rfl]; simp, rfl⟩
      · exact ((hs _ (Or.inl ⟨_, _, hc, rfl⟩)).mono hk) id handle he
    · exact old ((hasTable_of_make hm).mp ht)

theorem Performs.kept (h : Performs s step s' outcome) (hs : s.Kept) : s'.Kept :=
  ⟨h.coherent hs.coherent, fun _ ht => h.binds hs.binds ht⟩

/-! ## Runs -/

theorem run_append (s : Session) (steps : List Step) (step : Step) :
    s.run (steps ++ [step]) = ((s.run steps).perform step).1 := by
  rw [run, List.foldl_append]
  rfl

theorem not_hasTable_start (files : FileSystem) (trees : List (String × Tree)) (table : Table) :
    ¬(start files trees).HasTable table := by
  rintro (⟨_, _, hc, _⟩ | ⟨_, hb⟩)
  · cases hc
  · cases hb

theorem kept_start (files : FileSystem) (trees : List (String × Tree)) :
    (start files trees).Kept :=
  ⟨fun handle record hr => by simp [start] at hr,
    fun table ht => absurd ht (not_hasTable_start files trees table)⟩

theorem Kept.run (hs : s.Kept) (steps : List Step) : (s.run steps).Kept := by
  induction steps using List.reverseRecOn with
  | nil => exact hs
  | append_singleton steps step ih =>
    rw [run_append]
    exact (performs _ step).kept ih

/-- The record that a step makes at a handle, as it is right after the step. -/
def Makes (s : Session) (step : Step) (handle : Handle) (record : SourceFile) : Prop :=
  s.records.size ≤ handle ∧ (s.perform step).1.records[handle]? = some record

/-- Every record was made by one of the steps, and has had at most its text replaced since. -/
theorem exists_makes (files : FileSystem) (trees : List (String × Tree)) (steps : List Step)
    (hr : ((start files trees).run steps).records[handle]? = some record) :
    ∃ before step after original, steps = before ++ step :: after ∧
      ((start files trees).run before).Makes step handle original ∧
      original.Rewritten record := by
  induction steps using List.reverseRecOn generalizing record with
  | nil => simp [run, start] at hr
  | append_singleton steps step ih =>
    by_cases hlt : handle < ((start files trees).run steps).records.size
    · rw [run_append] at hr
      obtain ⟨record', hr', hw⟩ := (performs _ step).keeps handle _
        (Array.getElem?_eq_getElem hlt)
      obtain rfl := Option.some.inj (hr'.symm.trans hr)
      obtain ⟨before, maker, after, original, rfl, hm, ho⟩ := ih (Array.getElem?_eq_getElem hlt)
      exact ⟨before, maker, after ++ [step], original, by simp, hm, ho.trans hw⟩
    · rw [run_append] at hr
      exact ⟨steps, step, [], record, rfl, ⟨Nat.le_of_not_lt hlt, hr⟩, .same⟩

/-- The record of a file on disk takes its particulars from the path. -/
def IsOfDisk (record : SourceFile) : Prop :=
  ∃ id source path, record = SourceFile.ofDisk id source path

theorem isOfDisk_of_append {next : Int} {texts : List (Path × String)}
    (h : s'.records = s.records ++ (arrivals next texts).toArray)
    (hs : s.records.size ≤ handle) (hr : s'.records[handle]? = some record) :
    IsOfDisk record := by
  rw [h, Array.getElem?_append_right hs] at hr
  obtain ⟨i, hi, rfl⟩ := List.mem_mapIdx.mp (List.mem_toArray.mp (Array.mem_of_getElem? hr))
  exact ⟨_, _, _, rfl⟩

theorem Performs.isOfDisk (h : Performs s step s' outcome) (hd : step.readsDisk)
    (hs : s.records.size ≤ handle) (hr : s'.records[handle]? = some record) :
    IsOfDisk record := by
  obtain ⟨hlt, -⟩ := Array.getElem?_eq_some_iff.mp hr
  cases h with
  | retouch h _ => exact absurd (h.size_eq ▸ hlt) (Nat.not_lt.mpr hs)
  | create => exact absurd hlt (Nat.not_lt.mpr hs)
  | take => exact isOfDisk_of_append (records_takeAll s _) hs hr
  | ofRoots | load => exact isOfDisk_of_append (records_filled s _ _ _ _) hs hr
  | loadBatch => exact isOfDisk_of_append (records_takeAll s _) hs hr
  | merge => exact absurd hlt (Nat.not_lt.mpr hs)
  | @add _ draft _ _ made _ hm =>
    rw [records_add, records_make hm, Array.getElem?_append_right hs] at hr
    obtain rfl : record = made := by simpa using Array.mem_of_getElem? hr
    cases draft with
    | disk source path =>
      obtain ⟨-, he⟩ := Prod.mk.inj hm
      exact ⟨_, source, path, (Except.ok.inj he).symm⟩
    | virtual | full => cases hd

/-- In every session that steps lead to, each entry of a catalog's table leads to a record of its
id. The record's bytes are its text in UTF-8, and its line index has their length and, as starts,
zero and the position after each newline byte. Its id, name, path and kind are those that it was
made with; where it was made for a file on disk, its name is the last component of its path, and it
is a module exactly if that ends in `.mjs` with something in front. -/
theorem table_entries_of_run (files : FileSystem) (trees : List (String × Tree))
    (steps : List Step) {id : Int}
    (hc : ((start files trees).run steps).catalogs.get? name = some catalog)
    (he : (id, handle) ∈ catalog.table.entries) :
    ∃ record, ((start files trees).run steps).records[handle]? = some record ∧
      record.id = id ∧
      record.bytes.toByteArray = record.source.toUTF8 ∧
      record.lines.length = record.bytes.length ∧
      record.lines.starts.toList =
        0 :: ((List.range record.bytes.length).filter
          fun i => record.bytes[i]? = some 0x0A).map (· + 1) ∧
      ∃ before step after original, steps = before ++ step :: after ∧
        ((start files trees).run before).Makes step handle original ∧
        record.id = original.id ∧ record.name = original.name ∧
        record.path = original.path ∧ record.kind = original.kind ∧
        (step.readsDisk → ∃ path, original.path = some path ∧ original.name = path.name ∧
          (original.kind = .module ↔ ∃ stem ≠ "", path.name = stem ++ ".mjs")) := by
  have hk := (kept_start files trees).run steps
  obtain ⟨record, hr, hid⟩ := hk.binds _ (Or.inl ⟨name, catalog, hc, rfl⟩) id handle he
  have hs := hk.coherent handle record hr
  have hb : record.bytes = Utf8.encode record.source := by
    rw [SourceFile.bytes, hs]
    rfl
  have hl : record.lines = LineIndex.ofBytes record.bytes := by
    rw [hb, SourceFile.lines, hs]
    rfl
  refine ⟨record, hr, hid, ?_, ?_, ?_, ?_⟩
  · rw [hb, Utf8.toByteArray_encode]
  · rw [hl]
    rfl
  · rw [hl, ← LineIndex.startsOf_eq]
    rfl
  · obtain ⟨before, step, after, original, rfl, hm, hw⟩ := exists_makes files trees steps hr
    refine ⟨before, step, after, original, rfl, hm, hw.id_eq, hw.name_eq, hw.path_eq, hw.kind_eq,
      fun hd => ?_⟩
    obtain ⟨_, _, path, rfl⟩ := (performs _ step).isOfDisk hd hm.1 hm.2
    exact ⟨path, rfl, rfl, FileKind.ofPath_eq_module_iff⟩

/-- A file is loaded into one catalog, shared with a second and refreshed through the second after
it was written again. -/
def sharing : List Step :=
  let path : Path := ⟨.here, ["d", "a.mjs"]⟩
  [.edit (.write path [0x61, 0x0A]), .create "w" [], .load "w" [⟨.here, ["d"]⟩], .create "v" [],
    .merge "v" "w", .edit (.write path [0x0A, 0xC3, 0xA9]), .refresh "v" path]

theorem table_entries_of_sharing :
    let s := (start .empty []).run sharing
    s.catalogs.get? "w" = some ⟨{}, ⟨[(1, 0)]⟩⟩ ∧ s.catalogs.get? "v" = some ⟨{}, ⟨[(1, 0)]⟩⟩ ∧
      s.records[0]?.map (·.source) = some "\né" ∧
      ∃ record, s.records[0]? = some record ∧ record.id = 1 ∧
        record.bytes.toByteArray = record.source.toUTF8 := by
  have hw : ((start .empty []).run sharing).catalogs.get? "w" = some ⟨{}, ⟨[(1, 0)]⟩⟩ := by cbv
  have hv : ((start .empty []).run sharing).catalogs.get? "v" = some ⟨{}, ⟨[(1, 0)]⟩⟩ := by cbv
  have hs : ((start .empty []).run sharing).records[0]?.map (·.source) = some "\né" := by cbv
  obtain ⟨record, hr, hid, hb, -⟩ :=
    table_entries_of_run .empty [] sharing hv (List.mem_singleton.mpr rfl)
  exact ⟨hw, hv, hs, record, hr, hid, hb⟩

end SourceAtlas.Session
