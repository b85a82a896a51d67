import SourceAtlas.Proofs.Session.Records

/-! # Ids and identity

As long as every record stands for a file on disk, the counter numbers the records of a session in
the order in which they are made, those of failed loads included, and an entry of a table is a
record's number with its handle. So an id means one record wherever it is found, merging never
rebinds an id, and what a table holds stays where it is.
-/

namespace SourceAtlas

def Step.renewed? : Step → Option String
  | .create name _ => some name
  | .ofRoots name _ _ _ => some name
  | _ => none

namespace Session

variable {s s' : Session} {handle : Handle} {record : SourceFile} {table : Table}
  {name : String} {catalog : Catalog} {step : Step} {outcome : Except Failure Answer}

structure Numbered (s : Session) : Prop where
  next_eq : s.counter.next = s.records.size + 1
  id_eq : ∀ (handle : Handle) (record : SourceFile), s.records[handle]? = some record →
    record.id = handle + 1
  entry_eq : ∀ table, s.HasTable table → ∀ entry ∈ table.entries, entry.1 = entry.2 + 1

theorem numbered_start (files : FileSystem) (trees : List (String × Tree)) :
    (start files trees).Numbered :=
  ⟨rfl, fun handle record hr => by simp [start] at hr,
    fun table ht => absurd ht (not_hasTable_start files trees table)⟩

namespace Numbered

theorem lt_next (hs : s.Numbered) (hr : record ∈ s.records) : record.id < s.counter.next := by
  obtain ⟨handle, hlt, rfl⟩ := Array.mem_iff_getElem.mp hr
  rw [hs.next_eq, hs.id_eq handle _ (Array.getElem?_eq_getElem hlt)]
  omega

theorem id_of_append (hs : s.Numbered) {texts : List (Path × String)}
    (h : s'.records = s.records ++ (arrivals s.counter.next texts).toArray)
    (hr : s'.records[handle]? = some record) : record.id = handle + 1 := by
  rw [h, Array.getElem?_append] at hr
  split_ifs at hr with hlt
  · exact hs.id_eq handle record hr
  · rw [List.getElem?_toArray, arrivals, List.getElem?_mapIdx] at hr
    obtain ⟨text, -, rfl⟩ := Option.map_eq_some_iff.mp hr
    have hn := hs.next_eq
    simp only [SourceFile.ofDisk, SourceFile.make]
    omega

theorem entry_of_batch (hs : s.Numbered) {paths : List Path} {batch : Table}
    (hb : s.IsBatch paths batch) {entry : Int × Handle} (he : entry ∈ batch.entries) :
    entry.1 = entry.2 + 1 := by
  obtain ⟨i, -, rfl⟩ := hb.mem_entries_iff.mp he
  have hn := hs.next_eq
  dsimp only
  push_cast
  omega

/-- Reading files keeps the numbering, whatever tables they are put into. -/
theorem takeAll (hs : s.Numbered) {paths : List Path}
    (hc : s'.counter = (s.takeAll paths).1.counter) (hr : s'.records = (s.takeAll paths).1.records)
    (ht : ∀ table, s'.HasTable table → ∀ entry ∈ table.entries, entry.1 = entry.2 + 1) :
    s'.Numbered := by
  refine ⟨?_, fun handle record h => ?_, ht⟩
  · have hn := hs.next_eq
    simp only [hc, hr, takeAll_eq, Array.size_append, List.size_toArray, length_arrivals]
    push_cast
    omega
  · exact hs.id_of_append (hr.trans (records_takeAll s paths)) h

theorem filled (hs : s.Numbered) {paths : List Path} {batch : Table} (hb : s.IsBatch paths batch)
    (ht : ∀ entry ∈ catalog.table.entries, entry.1 = entry.2 + 1) :
    (s.filled name catalog paths batch).Numbered := by
  refine hs.takeAll rfl rfl fun table h entry he => ?_
  rcases HasTable.of_filled h with rfl | h
  · exact (OrderedMap.mem_entries_merge he).elim (ht entry) (hs.entry_of_batch hb)
  · exact hs.entry_eq table h entry he

theorem addDisk (hs : s.Numbered) {source : String} {path : Path}
    (hc : s.catalogs.get? name = some catalog)
    (hm : s.make (.disk source path) = (s', .ok record)) :
    (s'.add name catalog record).Numbered := by
  have hrecords : (s'.add name catalog record).records = s.records.push record := by
    rw [records_add, records_make hm, Array.append_singleton]
  have hn := hs.next_eq
  obtain ⟨rfl, hr⟩ := Prod.mk.inj hm
  obtain rfl := Except.ok.inj hr
  refine ⟨?_, fun handle record h => ?_, fun table h entry he => ?_⟩
  · rw [hrecords, Array.size_push]
    change s.counter.next + 1 = _
    rw [hn, Nat.cast_succ]
  · rw [hrecords, Array.getElem?_push] at h
    split_ifs at h with hlast
    · obtain rfl := Option.some.inj h
      rw [hlast]
      exact hn
    · exact hs.id_eq handle record h
  · rcases HasTable.of_setTable h with rfl | h
    · rcases OrderedMap.mem_entries_insert he with rfl | he
      · exact hn
      · exact hs.entry_eq _ (Or.inl ⟨name, catalog, hc, rfl⟩) entry he
    · exact hs.entry_eq table h entry he

theorem retouch (hs : s.Numbered) (h : Retouched s s') : s'.Numbered := by
  refine ⟨?_, fun handle record hr => ?_, fun table ht => ?_⟩
  · rw [h.counter, h.size_eq, hs.next_eq]
  · obtain ⟨original, ho, hw⟩ := h.exists_original hr
    rw [hw.id_eq, hs.id_eq handle original ho]
  · exact hs.entry_eq table ((hasTable_of_retouched h).mp ht)

end Numbered

theorem Performs.numbered (h : Performs s step s' outcome) (hd : step.readsDisk)
    (hs : s.Numbered) : s'.Numbered := by
  cases h with
  | retouch h _ => exact hs.retouch h
  | create =>
    refine ⟨hs.next_eq, hs.id_eq, fun table ht => ?_⟩
    rcases ht.of_create with rfl | ht
    · exact nofun
    · exact hs.entry_eq table ht
  | take =>
    exact hs.takeAll rfl rfl fun table ht => hs.entry_eq table (hasTable_takeAll.mp ht)
  | ofRoots hb => exact hs.filled hb (List.forall_mem_nil _)
  | load hc hb => exact hs.filled hb (hs.entry_eq _ (Or.inl ⟨_, _, hc, rfl⟩))
  | loadBatch hb =>
    refine hs.takeAll rfl rfl fun table ht entry he => ?_
    rcases HasTable.of_loadBatch ht with rfl | ht
    · exact hs.entry_of_batch hb he
    · exact hs.entry_eq table ht entry he
  | merge hc hm =>
    refine ⟨hs.next_eq, hs.id_eq, fun table ht entry he => ?_⟩
    rcases HasTable.of_setTable ht with rfl | ht
    · rcases OrderedMap.mem_entries_merge he with he | he
      · exact hs.entry_eq _ (Or.inl ⟨_, _, hc, rfl⟩) entry he
      · exact hs.entry_eq _ hm entry he
    · exact hs.entry_eq table ht entry he
  | @add _ draft _ _ _ hc hm =>
    cases draft with
    | disk source path => exact hs.addDisk hc hm
    | virtual | full => cases hd

theorem Numbered.run (hs : s.Numbered) {steps : List Step} (hd : ∀ step ∈ steps, step.readsDisk) :
    (s.run steps).Numbered := by
  induction steps using List.reverseRecOn with
  | nil => exact hs
  | append_singleton steps step ih =>
    rw [run_append]
    refine (performs _ step).numbered (hd step (by simp)) (ih fun other ho => ?_)
    exact hd other (List.mem_append_left _ ho)

/-! ## What one step leaves of the tables -/

theorem counter_le_of_ids {ids : List Int} (h : Performs s step s' (.ok (.ids ids))) {id : Int}
    (hi : id ∈ ids) : s.counter.next ≤ id := by
  -- Whatever answers ids answers those of the files that it has read.
  have hbatch : ∀ paths (batch : Table), s.IsBatch paths batch → id ∈ batch.keys →
      s.counter.next ≤ id := by
    intro paths batch hb hk
    obtain ⟨i, -, rfl⟩ := hb.mem_keys_iff.mp hk
    omega
  cases h with
  | retouch _ hn => exact absurd rfl (hn ids)
  | ofRoots hb | load _ hb | loadBatch hb => exact hbatch _ _ hb hi

theorem exists_catalog_of_insert {other : String} {found : Catalog}
    (hs : s'.catalogs = s.catalogs.insert name { catalog with table })
    (hc : s.catalogs.get? name = some catalog) (hp : catalog.table.entries <+: table.entries)
    (ho : s.catalogs.get? other = some found) :
    ∃ found', s'.catalogs.get? other = some found' ∧
      found.table.entries <+: found'.table.entries := by
  rw [hs, OrderedMap.get?_insert]
  split_ifs with heq
  · obtain rfl : other = name := by simpa using heq
    obtain rfl : catalog = found := Option.some.inj (hc.symm.trans ho)
    exact ⟨_, rfl, hp⟩
  · exact ⟨found, ho, List.prefix_rfl⟩

/-- As entries are numbers with their handles, merging tables never rebinds an id. -/
theorem prefix_merge_of_numbers {other : Table}
    (ht : ∀ entry ∈ table.entries, entry.1 = entry.2 + 1)
    (ho : ∀ entry ∈ other.entries, entry.1 = entry.2 + 1) :
    table.entries <+: (table.merge other).entries := by
  have handle_eq : ∀ entry : Int × ℕ, entry.1 = entry.2 + 1 → entry.2 = (entry.1 - 1).toNat := by
    intro entry he
    omega
  exact OrderedMap.prefix_merge (f := fun id => (id - 1).toNat)
    (fun entry h => handle_eq entry (ht entry h)) fun entry h => handle_eq entry (ho entry h)

theorem Performs.exists_catalog (h : Performs s step s' outcome) (hd : step.readsDisk)
    (hs : s.Numbered) {other : String} {found : Catalog}
    (ho : s.catalogs.get? other = some found) (hr : step.renewed? ≠ some other) :
    ∃ found', s'.catalogs.get? other = some found' ∧
      found.table.entries <+: found'.table.entries := by
  -- A catalog that is made anew is another one.
  have renewed : ∀ name catalog, some name ≠ some other →
      ∃ found', (s.catalogs.insert name catalog).get? other = some found' ∧
        found.table.entries <+: found'.table.entries := by
    intro name catalog hne
    have hne : ¬other == name := fun heq => hne (congrArg some (eq_of_beq heq).symm)
    exact ⟨found, by rw [OrderedMap.get?_insert, if_neg hne, ho], List.prefix_rfl⟩
  cases h with
  | retouch h _ => exact ⟨found, by rw [h.catalogs, ho], List.prefix_rfl⟩
  | create => exact renewed _ _ hr
  | @take _ paths _ _ =>
    refine ⟨found, ?_, List.prefix_rfl⟩
    rw [takeAll_eq]
    exact ho
  | @ofRoots name _ _ _ config _ batch =>
    obtain ⟨found', hf, hp⟩ := renewed name ⟨config, OrderedMap.empty.merge batch⟩ hr
    refine ⟨found', ?_, hp⟩
    rw [filled_eq]
    exact hf
  | load hc hb =>
    refine exists_catalog_of_insert (by rw [filled_eq]) hc ?_ ho
    exact prefix_merge_of_numbers (hs.entry_eq _ (Or.inl ⟨_, _, hc, rfl⟩)) fun _ he =>
      hs.entry_of_batch hb he
  | loadBatch =>
    refine ⟨found, ?_, List.prefix_rfl⟩
    rw [takeAll_eq]
    exact ho
  | merge hc hm =>
    refine exists_catalog_of_insert rfl hc ?_ ho
    exact prefix_merge_of_numbers (hs.entry_eq _ (Or.inl ⟨_, _, hc, rfl⟩)) (hs.entry_eq _ hm)
  | @add _ draft catalog _ _ hc hm =>
    cases draft with
    | disk source path =>
      obtain ⟨rfl, hr⟩ := Prod.mk.inj hm
      obtain rfl := Except.ok.inj hr
      refine exists_catalog_of_insert rfl hc (OrderedMap.prefix_insert fun handle he => ?_) ho
      have hid : s.counter.next = (handle : ℕ) + 1 := hs.entry_eq _ (Or.inl ⟨_, _, hc, rfl⟩) _ he
      exact Int.natCast_inj.mp (add_right_cancel (hid.symm.trans hs.next_eq))
    | virtual | full => cases hd

/-! ## Runs -/

/-- An id is issued once a record was made under it, whether or not that came into a table. -/
def Issued (s : Session) (id : Int) : Prop :=
  ∃ record ∈ s.records, record.id = id

theorem Numbered.issued_iff (hs : s.Numbered) {id : Int} :
    s.Issued id ↔ 1 ≤ id ∧ id < s.counter.next := by
  constructor
  · rintro ⟨record, hr, rfl⟩
    obtain ⟨handle, hlt, rfl⟩ := Array.mem_iff_getElem.mp hr
    have hid := hs.id_eq handle _ (Array.getElem?_eq_getElem hlt)
    exact ⟨by omega, hs.lt_next hr⟩
  · rintro ⟨hpos, hlt⟩
    have hn := hs.next_eq
    have hsize : (id - 1).toNat < s.records.size := by omega
    refine ⟨_, Array.getElem_mem hsize, ?_⟩
    rw [hs.id_eq _ _ (Array.getElem?_eq_getElem hsize)]
    omega

/-- As long as every record stands for a file on disk, different records have different ids, two
tables have the same record under an id that both have, and zero is no key. The counter stands
behind the ids that were issued, and a step that loads answers greater ones. A step leaves what a
catalog's table holds, handles and order included, as the beginning of what it then holds, unless it
makes the catalog anew. -/
theorem ids_of_run (files : FileSystem) (trees : List (String × Tree)) {steps : List Step}
    (hd : ∀ step ∈ steps, step.readsDisk) :
    let s := (start files trees).run steps
    (∀ (a b : Handle) (x y : SourceFile), s.records[a]? = some x → s.records[b]? = some y →
      x.id = y.id → a = b) ∧
    (∀ table other, s.HasTable table → s.HasTable other → ∀ (id : Int) (a b : Handle),
      (id, a) ∈ table.entries → (id, b) ∈ other.entries → a = b) ∧
    (∀ table, s.HasTable table → 0 ∉ table.keys) ∧
    (∀ id, s.Issued id ↔ 1 ≤ id ∧ id < s.counter.next) ∧
    (∀ step ids, (s.perform step).2 = .ok (.ids ids) →
      ∀ id ∈ ids, ∀ old, s.Issued old → old < id) ∧
    ∀ step, step.readsDisk → ∀ name catalog, s.catalogs.get? name = some catalog →
      step.renewed? ≠ some name →
        ∃ catalog', (s.perform step).1.catalogs.get? name = some catalog' ∧
          catalog.table.entries <+: catalog'.table.entries := by
  intro s
  have hs : s.Numbered := (numbered_start files trees).run hd
  refine ⟨?_, ?_, ?_, fun id => hs.issued_iff, ?_, ?_⟩
  · intro a b x y ha hb heq
    rw [hs.id_eq a x ha, hs.id_eq b y hb] at heq
    exact Int.natCast_inj.mp (add_right_cancel heq)
  · intro table other ht ho id a b ha hb
    have ha : id = a + 1 := hs.entry_eq table ht _ ha
    have hb : id = b + 1 := hs.entry_eq other ho _ hb
    exact Int.natCast_inj.mp (add_right_cancel (ha.symm.trans hb))
  · intro table ht hk
    obtain ⟨handle, he⟩ := OrderedMap.mem_keys_iff.mp hk
    have hz : 0 = (handle : Int) + 1 := hs.entry_eq table ht _ he
    omega
  · intro step ids ha id hi old ho
    have hp := performs s step
    rw [ha] at hp
    exact lt_of_lt_of_le (hs.issued_iff.mp ho).2 (counter_le_of_ids hp hi)
  · intro step hr name catalog hc hn
    exact (performs s step).exists_catalog hr hs hc hn

/-- A batch that was read first is merged last, and again into a second catalog. -/
def lateMerging : List Step :=
  let directory : Path := ⟨.here, ["d"]⟩
  [.edit (.write ⟨.here, ["d", "a.js"]⟩ []), .create "w" [], .loadBatch "w" "b" [directory],
    .load "w" [directory], .mergeBatch "w" "b", .create "v" [], .mergeBatch "v" "b"]

theorem ids_of_lateMerging :
    let s := (start .empty []).run lateMerging
    (∀ step ∈ lateMerging, step.readsDisk) ∧
      s.catalogs.get? "w" = some ⟨{}, ⟨[(2, 1), (1, 0)]⟩⟩ ∧
      s.catalogs.get? "v" = some ⟨{}, ⟨[(1, 0)]⟩⟩ ∧
      (s.perform (.load "v" [⟨.here, ["d"]⟩])).2 = .ok (.ids [3]) ∧
      ∀ old, s.Issued old → old < 3 := by
  have hd : ∀ step ∈ lateMerging, step.readsDisk := by decide
  have hw : ((start .empty []).run lateMerging).catalogs.get? "w" =
      some ⟨{}, ⟨[(2, 1), (1, 0)]⟩⟩ := by cbv
  have hv : ((start .empty []).run lateMerging).catalogs.get? "v" =
      some ⟨{}, ⟨[(1, 0)]⟩⟩ := by cbv
  have hl : (((start .empty []).run lateMerging).perform (.load "v" [⟨.here, ["d"]⟩])).2 =
      .ok (.ids [3]) := by cbv
  obtain ⟨-, -, -, -, hids, -⟩ := ids_of_run .empty [] hd
  exact ⟨hd, hw, hv, hl, hids _ _ hl 3 (List.mem_singleton.mpr rfl)⟩

end Session

end SourceAtlas
