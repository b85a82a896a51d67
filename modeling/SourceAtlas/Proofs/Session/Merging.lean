import Mathlib
import SourceAtlas.Proofs.Session.Sharing

/-! # Merging tables

Merging sets every id of one table in another. An id keeps the place at which it first came in and
leads to the record that was merged last, so that merging is associative, and merging what is there
already changes nothing. Two tables can change places only if they have equal records under the ids
that both have.
-/

namespace SourceAtlas

namespace SourceFile

variable {a b : SourceFile}

theorem same_iff : a.same b ↔ a.id = b.id ∧ a.name = b.name ∧ a.path = b.path ∧ a.kind = b.kind ∧
    a.source = b.source := by
  simp [same, and_assoc]

@[simp] theorem same_self (a : SourceFile) : a.same a := by
  simp [same_iff]

theorem same_comm : a.same b ↔ b.same a := by
  rw [same_iff, same_iff]
  simp only [eq_comm]

end SourceFile

namespace Session

variable {s : Session} {table other last : Table} {name : String} {catalog : Catalog}
  {step laterStep : Step} {id : Int}

/-! ## Tables of records -/

structure Indexes (s : Session) (table : Table) : Prop where
  nodup : table.keys.Nodup
  exists_record : ∀ entry ∈ table.entries, ∃ record, s.records[entry.2]? = some record

/-- The tables of every session that steps lead to hold their ids once and lead to records. -/
theorem indexes_of_run (files : FileSystem) (trees : List (String × Tree)) (steps : List Step)
    (ht : ((start files trees).run steps).HasTable table) :
    ((start files trees).run steps).Indexes table where
  nodup := nodup_keys_of_run files trees steps ht
  exists_record entry he := by
    obtain ⟨record, hr, -⟩ := ((kept_start files trees).run steps).binds table ht _ _ he
    exact ⟨record, hr⟩

theorem Indexes.exists_handle (h : s.Indexes table) (hk : id ∈ table.keys) :
    ∃ handle record, table.get? id = some handle ∧ s.records[handle]? = some record := by
  obtain ⟨handle, he⟩ := OrderedMap.mem_keys_iff.mp hk
  obtain ⟨record, hr⟩ := h.exists_record _ he
  exact ⟨handle, record, OrderedMap.get?_of_mem h.nodup he, hr⟩

theorem Indexes.exists_record? (h : s.Indexes table) (hk : id ∈ table.keys) :
    ∃ record, s.record? table id = some record := by
  obtain ⟨handle, record, hg, hr⟩ := h.exists_handle hk
  exact ⟨record, by simp [record?, hg, hr]⟩

theorem mem_keys_of_record? {record : SourceFile} (h : s.record? table id = some record) :
    id ∈ table.keys := by
  obtain ⟨handle, hg, -⟩ := Option.bind_eq_some_iff.mp h
  exact OrderedMap.mem_keys_iff_get?.mpr ⟨handle, hg⟩

theorem Indexes.merge (ht : s.Indexes table) (ho : s.Indexes other) :
    s.Indexes (table.merge other) where
  nodup := OrderedMap.nodup_keys_merge ht.nodup other
  exists_record entry he := by
    rcases OrderedMap.mem_entries_merge he with he | he
    · exact ht.exists_record entry he
    · exact ho.exists_record entry he

theorem record?_merge (ho : s.Indexes other) (id : Int) :
    s.record? (table.merge other) id = (s.record? other id).or (s.record? table id) := by
  rw [record?, OrderedMap.get?_merge ho.nodup]
  by_cases hk : id ∈ other.keys
  · obtain ⟨handle, record, hg, hr⟩ := ho.exists_handle hk
    simp [record?, hg, hr]
  · simp [record?, OrderedMap.get?_eq_none_iff.mpr hk]

theorem equalTables_eq_true_iff : s.equalTables table other ↔ table.size = other.size ∧
    ∀ id ∈ table.keys, ∃ record record', s.record? table id = some record ∧
      s.record? other id = some record' ∧ record.same record' := by
  simp only [equalTables, Bool.and_eq_true, beq_iff_eq, List.all_eq_true]
  refine and_congr_right fun _ => forall₂_congr fun id _ => ?_
  cases s.record? table id <;> cases s.record? other id <;> simp

/-- Tables are equal when they have the same ids, in any order, and equal records under each. -/
theorem equalTables_iff (ht : s.Indexes table) (ho : s.Indexes other) :
    s.equalTables table other ↔ (∀ id, id ∈ table.keys ↔ id ∈ other.keys) ∧
      ∀ id record record', s.record? table id = some record → s.record? other id = some record' →
        record.same record' := by
  rw [equalTables_eq_true_iff, OrderedMap.size_eq_card ht.nodup, OrderedMap.size_eq_card ho.nodup]
  constructor
  · rintro ⟨hsize, hall⟩
    have hsub : table.keys.toFinset ⊆ other.keys.toFinset := by
      intro id hk
      obtain ⟨_, _, -, hr, -⟩ := hall id (List.mem_toFinset.mp hk)
      exact List.mem_toFinset.mpr (mem_keys_of_record? hr)
    have heq := Finset.eq_of_subset_of_card_le hsub hsize.ge
    refine ⟨fun id => ?_, fun id record record' hr hr' => ?_⟩
    · rw [← List.mem_toFinset, heq, List.mem_toFinset]
    · obtain ⟨_, _, h, h', hsame⟩ := hall id (mem_keys_of_record? hr)
      obtain rfl := Option.some.inj (hr.symm.trans h)
      obtain rfl := Option.some.inj (hr'.symm.trans h')
      exact hsame
  · rintro ⟨hkeys, hall⟩
    have heq : table.keys.toFinset = other.keys.toFinset := by
      ext id
      simp [hkeys]
    refine ⟨congrArg Finset.card heq, fun id hk => ?_⟩
    obtain ⟨record, hr⟩ := ht.exists_record? hk
    obtain ⟨record', hr'⟩ := ho.exists_record? ((hkeys id).mp hk)
    exact ⟨record, record', hr, hr', hall id record record' hr hr'⟩

/-- Two tables that are merged in either order give equal tables just if they have equal records
under the ids that both have. -/
theorem equalTables_merge_iff (ht : s.Indexes table) (ho : s.Indexes other) :
    s.equalTables (table.merge other) (other.merge table) ↔
      ∀ id record record', s.record? table id = some record → s.record? other id = some record' →
        record.same record' := by
  rw [equalTables_iff (ht.merge ho) (ho.merge ht)]
  constructor
  · rintro ⟨-, hall⟩ id record record' hr hr'
    apply SourceFile.same_comm.mp
    apply hall id <;> simp [record?_merge ho, record?_merge ht, hr, hr']
  · refine fun hall => ⟨fun id => ?_, fun id record record' hr hr' => ?_⟩
    · rw [OrderedMap.mem_keys_merge ho.nodup, OrderedMap.mem_keys_merge ht.nodup, or_comm]
    · rw [record?_merge ho] at hr
      rw [record?_merge ht] at hr'
      -- Under an id that only one of the tables has, both orders lead to the same record.
      cases htable : s.record? table id with
      | none => simp_all
      | some first =>
        cases hother : s.record? other id with
        | none => simp_all
        | some second =>
          obtain rfl : second = record := by simpa [hother] using hr
          obtain rfl : first = record' := by simpa [htable] using hr'
          exact SourceFile.same_comm.mp (hall id _ _ htable hother)

/-! ## Steps that merge -/

inductive Merges (s : Session) (name : String) (table : Table) : Step → Prop
  | catalog {source config} : source ≠ name → s.catalogs.get? source = some ⟨config, table⟩ →
      Merges s name table (.merge name source)
  | batch {source} : s.batches.get? source = some table →
      Merges s name table (.mergeBatch name source)

theorem Merges.hasTable (h : s.Merges name table step) : s.HasTable table := by
  cases h with
  | catalog _ hs => exact .inl ⟨_, _, hs, rfl⟩
  | batch hs => exact .inr ⟨_, hs⟩

theorem perform_merge {source : Catalog} {sourceName : String}
    (hc : s.catalogs.get? name = some catalog) (hs : s.catalogs.get? sourceName = some source) :
    s.perform (.merge name sourceName) = (s.merge name catalog source.table, .ok .done) := by
  simp only [perform, withCatalog, hc, hs]

theorem Merges.perform (h : s.Merges name table step) (hc : s.catalogs.get? name = some catalog) :
    s.perform step = (s.merge name catalog table, .ok .done) := by
  cases h with
  | catalog _ hs => exact perform_merge hc hs
  | batch hs => simp only [Session.perform, withCatalog, hc, hs]

theorem get?_catalogs_merge (s : Session) (name : String) (catalog : Catalog) (table : Table)
    (key : String) : (s.merge name catalog table).catalogs.get? key =
      if key = name then some { catalog with table := catalog.table.merge table }
      else s.catalogs.get? key := by
  simp [Session.merge, setTable, OrderedMap.get?_insert]

theorem get?_catalogs_merge_self (s : Session) (name : String) (catalog : Catalog) (table : Table) :
    (s.merge name catalog table).catalogs.get? name =
      some { catalog with table := catalog.table.merge table } := by
  rw [get?_catalogs_merge, if_pos rfl]

/-- What is merged into a catalog leaves the sources of merging into it as they are. -/
theorem Merges.of_merge (h : s.Merges name table step) (catalog : Catalog) (other : Table) :
    (s.merge name catalog other).Merges name table step := by
  cases h with
  | @catalog source config hne hs =>
    exact .catalog hne (by rw [get?_catalogs_merge, if_neg hne, hs])
  | batch hs => exact .batch hs

/-- Merging what a catalog holds already changes nothing. -/
theorem merge_of_absorbed (hc : s.catalogs.get? name = some catalog)
    (h : catalog.table.merge table = catalog.table) : s.merge name catalog table = s := by
  have hi : s.catalogs.insert name catalog = s.catalogs := OrderedMap.insert_of_get? hc
  rw [Session.merge, setTable, h]
  exact congrArg (fun catalogs => { s with catalogs }) hi

theorem run_of_absorbed (h : s.Merges name table step) (hc : s.catalogs.get? name = some catalog)
    (ha : catalog.table.merge table = catalog.table) : s.run [step] = s := by
  change (s.perform step).1 = s
  rw [h.perform hc, merge_of_absorbed hc ha]

theorem run_of_twice (ht : s.Indexes table) (h : s.Merges name table step)
    (hc : s.catalogs.get? name = some catalog) : s.run [step, step] = s.run [step] := by
  have hstep : s.run [step] = s.merge name catalog table := congrArg Prod.fst (h.perform hc)
  change (s.run [step]).run [step] = s.run [step]
  rw [hstep]
  exact run_of_absorbed (h.of_merge catalog table) (get?_catalogs_merge_self s name catalog table)
    (OrderedMap.merge_merge_self ht.nodup)

theorem run_of_two (h : s.Merges name table step) (hl : s.Merges name last laterStep)
    (hc : s.catalogs.get? name = some catalog) :
    (s.run [step, laterStep]).catalogs.get? name =
      some { catalog with table := (catalog.table.merge table).merge last } := by
  have hmerged := get?_catalogs_merge_self s name catalog table
  change ((s.perform step).1.perform laterStep).1.catalogs.get? name = _
  rw [h.perform hc, (hl.of_merge catalog table).perform hmerged, get?_catalogs_merge_self]

theorem run_of_source {source : Catalog} {sourceName : String} (hne : sourceName ≠ name)
    (hs : s.catalogs.get? sourceName = some source) (h : s.Merges sourceName table step)
    (hc : s.catalogs.get? name = some catalog) :
    (s.run [step, .merge name sourceName]).catalogs.get? name =
      some { catalog with table := catalog.table.merge (source.table.merge table) } := by
  have hmerged := get?_catalogs_merge_self s sourceName source table
  have hkept : (s.merge sourceName source table).catalogs.get? name = some catalog := by
    rw [get?_catalogs_merge, if_neg hne.symm, hc]
  change ((s.perform step).1.perform (.merge name sourceName)).1.catalogs.get? name = _
  rw [h.perform hs, perform_merge hkept hmerged, get?_catalogs_merge_self]

/-- In a session whose tables hold every id once and lead to records, merging a catalog into itself
changes nothing. Merging another table changes the table of the catalog only. Every id of the merged
table leads to its record then, every other id to what it led to; the ids of the catalog keep their
places, and the new ones follow. Merging a table once more, or an empty table, changes nothing.

Merging a second catalog and then a third table is merging the table into the second catalog first,
to the order of the ids. If the catalog is empty, two tables that are merged into it in either order
give equal tables just if their records under every id that both have are equal; there are as many
entries as ids of the two. -/
theorem tables_of_merging (hs : ∀ table, s.HasTable table → s.Indexes table)
    (hc : s.catalogs.get? name = some catalog) :
    s.perform (.merge name name) = (s, .ok .done) ∧
    (∀ table step, s.Merges name table step →
      (∃ merged : Table, s.perform step = (s.setTable name catalog merged, .ok .done) ∧
        merged.keys = catalog.table.keys ++ table.keys.filter (· ∉ catalog.table.keys) ∧
        (∀ id ∈ table.keys, ∃ handle record, table.get? id = some handle ∧
          merged.get? id = some handle ∧ s.records[handle]? = some record) ∧
        ∀ id, id ∉ table.keys → merged.get? id = catalog.table.get? id) ∧
      s.run [step, step] = s.run [step] ∧ (table = .empty → s.run [step] = s)) ∧
    (∀ middleName middle last step step', middleName ≠ name →
      s.catalogs.get? middleName = some middle → s.Merges name last step →
        s.Merges middleName last step' →
          ∃ merged, (s.run [.merge name middleName, step]).catalogs.get? name =
              some { catalog with table := merged } ∧
            (s.run [step', .merge name middleName]).catalogs.get? name =
              some { catalog with table := merged }) ∧
    (catalog.table = .empty → ∀ table step other step', s.Merges name table step →
      s.Merges name other step' →
        ∃ forward backward, (s.run [step, step']).catalogs.get? name =
            some { catalog with table := forward } ∧
          (s.run [step', step]).catalogs.get? name = some { catalog with table := backward } ∧
          (s.equalTables forward backward ↔ ∀ id record record',
            s.record? table id = some record → s.record? other id = some record' →
              record.same record') ∧
          forward.size = (table.keys.toFinset ∪ other.keys.toFinset).card ∧
          backward.size = (table.keys.toFinset ∪ other.keys.toFinset).card) := by
  have hcatalog : s.Indexes catalog.table := hs _ (.inl ⟨name, catalog, hc, rfl⟩)
  refine ⟨?_, fun table step hm => ?_, ?_, fun he table step other step' hm ho => ?_⟩
  · rw [perform_merge hc hc, merge_of_absorbed hc (OrderedMap.merge_self hcatalog.nodup)]
  · have htable : s.Indexes table := hs _ hm.hasTable
    refine ⟨⟨_, hm.perform hc, OrderedMap.keys_merge htable.nodup, fun id hk => ?_,
      fun id hk => ?_⟩, run_of_twice htable hm hc, fun he => ?_⟩
    · obtain ⟨handle, record, hg, hr⟩ := htable.exists_handle hk
      exact ⟨handle, record, hg, by simp [OrderedMap.get?_merge htable.nodup, hg], hr⟩
    · simp [OrderedMap.get?_merge htable.nodup, OrderedMap.get?_eq_none_iff.mpr hk]
    · subst he
      exact run_of_absorbed hm hc OrderedMap.merge_nil
  · intro middleName middle last step step' hne hmiddle hl hl'
    have hnodup := (hs _ (.inl ⟨middleName, middle, hmiddle, rfl⟩)).nodup
    refine ⟨_, run_of_two (.catalog hne hmiddle) hl hc, ?_⟩
    rw [run_of_source hne hmiddle hl' hc,
      OrderedMap.merge_assoc hcatalog.nodup hnodup (hs _ hl.hasTable).nodup]
  · have htable : s.Indexes table := hs _ hm.hasTable
    have hother : s.Indexes other := hs _ ho.hasTable
    have hempty : ∀ first : Table, s.Indexes first → catalog.table.merge first = first := by
      intro first hf
      rw [he]
      exact OrderedMap.ofList_eq hf.nodup
    refine ⟨_, _, run_of_two hm ho hc, run_of_two ho hm hc, ?_⟩
    rw [hempty _ htable, hempty _ hother]
    refine ⟨equalTables_merge_iff htable hother,
      OrderedMap.size_merge htable.nodup hother.nodup, ?_⟩
    rw [OrderedMap.size_merge hother.nodup htable.nodup, Finset.union_comm]

/-- Two catalogs and a batch of which any two have an id in common. The catalog `b` has a record
like the one that was read under this id. -/
def colliding : List Step :=
  let first : Path := ⟨.here, ["d", "a.js"]⟩
  [.edit (.write first []), .edit (.write ⟨.here, ["d", "b.js"]⟩ [0x62]), .create "a" [],
    .create "b" [], .create "u" [], .loadBatch "a" "c" [⟨.here, ["d"]⟩],
    .add "a" (.full "q" "n" none 2 (.text "script")),
    .add "a" (.full "q" "n" none 3 (.text "script")),
    .add "b" (.full "r" "n" none 3 (.text "script")),
    .add "b" (.full "" "a.js" (some first) 1 (.text "script"))]

theorem tables_of_colliding :
    let s := (start .empty []).run colliding
    let a : Table := ⟨[(2, 2), (3, 3)]⟩
    let b : Table := ⟨[(3, 4), (1, 5)]⟩
    let c : Table := ⟨[(1, 0), (2, 1)]⟩
    let merged : Table := ⟨[(2, 1), (3, 4), (1, 0)]⟩
    (∀ table, s.HasTable table → s.Indexes table) ∧ s.catalogs.get? "a" = some ⟨{}, a⟩ ∧
      s.Merges "a" b (.merge "a" "b") ∧ s.Merges "a" c (.mergeBatch "a" "c") ∧
      (s.run [.merge "a" "b", .mergeBatch "a" "c"]).catalogs.get? "a" = some ⟨{}, merged⟩ ∧
      (s.run [.mergeBatch "b" "c", .merge "a" "b"]).catalogs.get? "a" = some ⟨{}, merged⟩ ∧
      (s.run [.merge "u" "b", .mergeBatch "u" "c"]).catalogs.get? "u" =
        some ⟨{}, ⟨[(3, 4), (1, 0), (2, 1)]⟩⟩ ∧
      (s.run [.mergeBatch "u" "c", .merge "u" "b"]).catalogs.get? "u" =
        some ⟨{}, ⟨[(1, 5), (2, 1), (3, 4)]⟩⟩ ∧
      (∀ id record record', s.record? b id = some record → s.record? c id = some record' →
        record.same record') ∧ (b.keys.toFinset ∪ c.keys.toFinset).card = 3 := by
  intro s a b c merged
  have hcatalogs : ((start .empty []).run colliding).catalogs =
      ⟨[("a", ⟨{}, ⟨[(2, 2), (3, 3)]⟩⟩), ("b", ⟨{}, ⟨[(3, 4), (1, 5)]⟩⟩), ("u", ⟨{}, .empty⟩)]⟩ := by
    cbv
  have hc : ((start .empty []).run colliding).batches.get? "c" =
      some ⟨[(1, 0), (2, 1)]⟩ := by cbv
  have hequal : ((start .empty []).run colliding).equalTables
      ⟨[(3, 4), (1, 0), (2, 1)]⟩ ⟨[(1, 5), (2, 1), (3, 4)]⟩ := by cbv
  have hs : ∀ table, s.HasTable table → s.Indexes table :=
    fun _ => indexes_of_run .empty [] colliding
  have ha : s.catalogs.get? "a" = some ⟨{}, a⟩ := by
    rw [hcatalogs]
    rfl
  have hb : s.catalogs.get? "b" = some ⟨{}, b⟩ := by
    rw [hcatalogs]
    rfl
  have hu : s.catalogs.get? "u" = some ⟨{}, .empty⟩ := by
    rw [hcatalogs]
    rfl
  have hab : s.Merges "a" b (.merge "a" "b") := .catalog (by decide) hb
  have hac : s.Merges "a" c (.mergeBatch "a" "c") := .batch hc
  have hub : s.Merges "u" b (.merge "u" "b") := .catalog (by decide) hb
  have huc : s.Merges "u" c (.mergeBatch "u" "c") := .batch hc
  obtain ⟨-, -, hassoc, -⟩ := tables_of_merging hs ha
  obtain ⟨_, hfirst, hsecond⟩ := hassoc "b" _ c _ _ (by decide) hb hac (.batch hc)
  obtain ⟨-, -, -, horder⟩ := tables_of_merging hs hu
  obtain ⟨forward, backward, hf, hg, hiff, hsize, -⟩ := horder rfl b _ c _ hub huc
  have hmerged := run_of_two hab hac ha
  have hforward := run_of_two hub huc hu
  have hbackward := run_of_two huc hub hu
  obtain rfl : forward = _ := congrArg Catalog.table (Option.some.inj (hf.symm.trans hforward))
  obtain rfl : backward = _ := congrArg Catalog.table (Option.some.inj (hg.symm.trans hbackward))
  refine ⟨hs, ha, hab, hac, hmerged, ?_, hforward, hbackward, hiff.mp hequal, hsize.symm⟩
  exact hsecond.trans (hfirst.symm.trans hmerged)

end Session

end SourceAtlas
