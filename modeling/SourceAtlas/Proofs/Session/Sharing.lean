import Mathlib
import SourceAtlas.Proofs.Session.Loading
import SourceAtlas.Proofs.Session.Records
import SourceAtlas.Proofs.Session.Refreshing

/-! # Refreshing shared records

Tables hold the same record by holding its handle. Refreshing a path through one catalog rewrites
one record in place, so that every catalog and batch that holds the record shows its new text, and
leaves every other record and all tables as they are.
-/

namespace SourceAtlas

namespace Session

variable {s s' : Session} {handle : Handle} {record : SourceFile} {table : Table}
  {name text : String} {catalog : Catalog} {path : Path} {step : Step}
  {outcome : Except Failure Answer}

/-! ## Keys of tables -/

theorem Performs.nodup_keys (h : Performs s step s' outcome)
    (hs : ∀ table, s.HasTable table → table.keys.Nodup) (ht : s'.HasTable table) :
    table.keys.Nodup := by
  cases h with
  | retouch h _ => exact hs table ((hasTable_of_retouched h).mp ht)
  | create =>
    rcases ht.of_create with rfl | ht
    · exact OrderedMap.nodup_keys_empty
    · exact hs table ht
  | take => exact hs table (hasTable_takeAll.mp ht)
  | ofRoots =>
    rcases HasTable.of_filled ht with rfl | ht
    · exact OrderedMap.nodup_keys_merge OrderedMap.nodup_keys_empty _
    · exact hs table ht
  | load hc =>
    rcases HasTable.of_filled ht with rfl | ht
    · exact OrderedMap.nodup_keys_merge (hs _ (Or.inl ⟨_, _, hc, rfl⟩)) _
    · exact hs table ht
  | loadBatch hb =>
    rcases HasTable.of_loadBatch ht with rfl | ht
    · exact hb.nodup_keys
    · exact hs table ht
  | merge hc =>
    rcases HasTable.of_setTable ht with rfl | ht
    · exact OrderedMap.nodup_keys_merge (hs _ (Or.inl ⟨_, _, hc, rfl⟩)) _
    · exact hs table ht
  | add hc hm =>
    rcases HasTable.of_setTable ht with rfl | ht
    · exact OrderedMap.nodup_keys_insert (hs _ (Or.inl ⟨_, _, hc, rfl⟩)) _ _
    · exact hs table ((hasTable_of_make hm).mp ht)

/-- No table holds an id twice. -/
theorem nodup_keys_of_run (files : FileSystem) (trees : List (String × Tree)) (steps : List Step)
    (ht : ((start files trees).run steps).HasTable table) : table.keys.Nodup := by
  induction steps using List.reverseRecOn generalizing table with
  | nil => exact absurd ht (not_hasTable_start files trees table)
  | append_singleton steps step ih =>
    rw [run_append] at ht
    exact (performs _ step).nodup_keys (fun _ => ih) ht

/-! ## One refresh -/

theorem FirstNamed.mem_values (h : s.FirstNamed table name handle) : handle ∈ table.values := by
  obtain ⟨before, after, hv, -⟩ := h
  rw [hv]
  exact List.mem_append_right _ List.mem_cons_self

theorem refresh_of_ok (h : s.FirstNamed table path.name handle)
    (hr : s.files.readSource path = .ok text) :
    s.refresh table path =
      ((s.replace handle text).emit (.refreshed (s.idOf handle) path), .ok (some handle)) := by
  simp only [refresh, target?_eq_some_iff.mpr h, hr]

/-- A path that no record has the name of, or that cannot be read, refreshes nothing. -/
theorem refresh_of_idle (hn : ¬path.text.contains '\x00')
    (h : (∀ handle, ¬s.FirstNamed table path.name handle) ∨ ¬s.files.Legible path) :
    (s.refresh table path).2 = .ok none ∧ (s.refresh table path).1.records = s.records := by
  unfold refresh
  split
  · exact ⟨rfl, rfl⟩
  · next handle ht =>
    split
    · next text hr =>
      rcases h with h | h
      · exact absurd (target?_eq_some_iff.mp ht) (h handle)
      · exact absurd (FileSystem.legible_iff.mpr ⟨text, hr⟩) h
    · next he => exact absurd (FileSystem.readSource_eq_embeddedNul_iff.mp he) hn
    · exact ⟨rfl, rfl⟩

theorem perform_refresh (hc : s.catalogs.get? name = some catalog) (path : Path) :
    s.perform (.refresh name path) =
      ((s.refresh catalog.table path).1, (s.refresh catalog.table path).2.map fun found =>
        .id (found.map (s.refresh catalog.table path).1.idOf)) := by
  simp only [perform, withCatalog, hc]
  rcases s.refresh catalog.table path with ⟨_, _ | _⟩ <;> rfl

theorem records_replace (hr : s.records[handle]? = some record) (text : String) (other : Handle) :
    (s.replace handle text).records[other]? =
      if other = handle then some (record.replaceContent text) else s.records[other]? := by
  rw [replace, Array.getElem?_modify]
  by_cases heq : handle = other
  · subst heq
    rw [if_pos rfl, if_pos rfl, hr]
    rfl
  · rw [if_neg heq, if_neg (Ne.symm heq)]

/-- In every session that steps lead to, refreshing a path without a NUL character through a catalog
leaves the tables of all catalogs and batches as they are. If the path can be read and holds
well-formed bytes, the first record of its name in the catalog, which is what is answered, is
rewritten to hold them, and no other record changes; whatever table holds the record shows it as it
is now. Otherwise nothing is answered and no record changes. -/
theorem refresh_of_run (files : FileSystem) (trees : List (String × Tree)) (steps : List Step)
    (hc : ((start files trees).run steps).catalogs.get? name = some catalog)
    (hn : ¬path.text.contains '\x00') :
    let s := (start files trees).run steps
    let s' := (s.perform (.refresh name path)).1
    s'.catalogs = s.catalogs ∧ s'.batches = s.batches ∧
      (∀ handle bytes, s.FirstNamed catalog.table path.name handle →
        s.files.read path = .ok bytes → bytes.toByteArray.IsValidUTF8 →
        ∃ id record record', catalog.table.get? id = some handle ∧
          s.records[handle]? = some record ∧
          (s.refresh catalog.table path).2 = .ok (some handle) ∧
          (s.perform (.refresh name path)).2 = .ok (.id (some id)) ∧
          record'.source.toUTF8 = bytes.toByteArray ∧ record'.bytes = bytes ∧
          record'.lines = LineIndex.ofBytes bytes ∧
          record'.id = record.id ∧ record'.name = record.name ∧ record'.path = record.path ∧
          record'.kind = record.kind ∧
          (∀ other : Handle, s'.records[other]? =
            if other = handle then some record' else s.records[other]?) ∧
          ∀ table, s.HasTable table →
            (∀ key, s'.record? table key =
              if table.get? key = some handle then some record' else s.record? table key) ∧
            s'.recordsOf table = table.values.filterMap fun other =>
              if other = handle then some record' else s.records[other]?) ∧
      ((∀ handle, ¬s.FirstNamed catalog.table path.name handle) ∨ ¬s.files.Legible path →
        (s.perform (.refresh name path)).2 = .ok (.id none) ∧ s'.records = s.records) := by
  intro s s'
  have hs' : s' = (s.refresh catalog.table path).1 := congrArg Prod.fst (perform_refresh hc path)
  have hframe := Retouched.refresh s catalog.table path
  have ht : s.HasTable catalog.table := Or.inl ⟨name, catalog, hc, rfl⟩
  refine ⟨hs' ▸ hframe.catalogs, hs' ▸ hframe.batches, fun handle bytes hfirst hread hvalid => ?_,
    fun hidle => ?_⟩
  · obtain ⟨text, htext⟩ := FileSystem.legible_iff.mp ⟨bytes, hread, hvalid⟩
    obtain rfl : bytes = Utf8.encode text :=
      Except.ok.inj (hread.symm.trans (FileSystem.readSource_eq_ok_iff.mp htext))
    have hrefresh := refresh_of_ok hfirst htext
    obtain ⟨entry, he, hhandle⟩ := List.mem_map.mp hfirst.mem_values
    obtain ⟨record, hr, hid⟩ := ((kept_start files trees).run steps).binds _ ht entry.1 handle
      (hhandle ▸ he)
    have hrecords : ∀ other : Handle, s'.records[other]? =
        if other = handle then some (record.replaceContent text) else s.records[other]? := by
      intro other
      rw [hs', hrefresh]
      exact records_replace hr text other
    have hkey := OrderedMap.get?_of_mem (nodup_keys_of_run files trees steps ht)
      (hhandle ▸ he : (entry.1, handle) ∈ catalog.table.entries)
    have hidOf : s'.idOf handle = entry.1 := by
      rw [idOf, hrecords, if_pos rfl]
      exact hid
    refine ⟨entry.1, record, record.replaceContent text, hkey, hr, by rw [hrefresh], ?_,
      (Utf8.toByteArray_encode text).symm, rfl, rfl, rfl, rfl, rfl, rfl, hrecords,
      fun table _ => ⟨fun key => ?_, ?_⟩⟩
    · rw [perform_refresh hc, ← hs', hrefresh, ← hidOf]
      rfl
    · unfold record?
      cases hg : table.get? key with
      | none => rfl
      | some other =>
        rw [Option.bind_some, Option.bind_some, hrecords]
        simp only [Option.some.injEq]
    · exact List.filterMap_congr fun other _ => hrecords other
  · obtain ⟨hnone, hrecords⟩ := refresh_of_idle hn hidle
    refine ⟨?_, hs' ▸ hrecords⟩
    rw [perform_refresh hc, hnone]
    rfl

/-- Two files of one name are loaded, one of them as a batch that is merged last. A second catalog
takes the batch first, and the file that it does not begin with is written again. -/
def crossing : List Step :=
  let first : Path := ⟨.here, ["d", "a.js"]⟩
  let second : Path := ⟨.here, ["e", "a.js"]⟩
  [.edit (.write first [0x61]), .edit (.write second [0x62]), .create "w" [],
    .loadBatch "w" "b" [second], .load "w" [first], .mergeBatch "w" "b", .create "v" [],
    .mergeBatch "v" "b", .merge "v" "w", .edit (.write first [0x63])]

theorem refresh_of_crossing :
    let s := (start .empty []).run crossing
    let path : Path := ⟨.here, ["d", "a.js"]⟩
    let s' := (s.perform (.refresh "v" path)).1
    s.catalogs.get? "v" = some ⟨{}, ⟨[(1, 0), (2, 1)]⟩⟩ ∧
      s.catalogs.get? "w" = some ⟨{}, ⟨[(2, 1), (1, 0)]⟩⟩ ∧ s.batches.get? "b" = some ⟨[(1, 0)]⟩ ∧
      ¬path.text.contains '\x00' ∧ s.FirstNamed ⟨[(1, 0), (2, 1)]⟩ path.name 0 ∧
      s.files.read path = .ok [0x63] ∧
      ∃ record, record.path = some ⟨.here, ["e", "a.js"]⟩ ∧ record.bytes = [0x63] ∧
        s'.record? ⟨[(2, 1), (1, 0)]⟩ 1 = some record ∧ s'.record? ⟨[(1, 0)]⟩ 1 = some record ∧
        s'.record? ⟨[(2, 1), (1, 0)]⟩ 2 = s.record? ⟨[(2, 1), (1, 0)]⟩ 2 := by
  intro s path s'
  have hv : ((start .empty []).run crossing).catalogs.get? "v" =
      some ⟨{}, ⟨[(1, 0), (2, 1)]⟩⟩ := by cbv
  have hw : ((start .empty []).run crossing).catalogs.get? "w" =
      some ⟨{}, ⟨[(2, 1), (1, 0)]⟩⟩ := by cbv
  have hb : ((start .empty []).run crossing).batches.get? "b" = some ⟨[(1, 0)]⟩ := by cbv
  have hn : (⟨.here, ["d", "a.js"]⟩ : Path).text.contains '\x00' = false := by cbv
  have htarget : ((start .empty []).run crossing).target? ⟨[(1, 0), (2, 1)]⟩
      ⟨.here, ["d", "a.js"]⟩ = some 0 := by cbv
  have hread : ((start .empty []).run crossing).files.read ⟨.here, ["d", "a.js"]⟩ =
      .ok [0x63] := by cbv
  have hpath : ((start .empty []).run crossing).records[0]?.map (·.path) =
      some (some ⟨.here, ["e", "a.js"]⟩) := by cbv
  have hvalid : (Utf8.encode "c").toByteArray.IsValidUTF8 := by
    rw [Utf8.toByteArray_encode]
    exact String.isValidUTF8 _
  have hfirst := target?_eq_some_iff.mp htarget
  have hn := Bool.eq_false_iff.mp hn
  obtain ⟨-, -, hrefresh, -⟩ := refresh_of_run .empty [] crossing hv hn
  obtain ⟨-, record, record', -, hr, -, -, -, hbytes, -, -, -, hsame, -, -, htables⟩ :=
    hrefresh 0 _ hfirst hread hvalid
  obtain ⟨hlookups, -⟩ := htables _ (Or.inl ⟨"w", _, hw, rfl⟩)
  obtain ⟨hbatch, -⟩ := htables _ (Or.inr ⟨"b", hb⟩)
  rw [hr] at hpath
  exact ⟨hv, hw, hb, hn, hfirst, hread, record', hsame.trans (Option.some.inj hpath), hbytes,
    hlookups 1, hbatch 1, hlookups 2⟩

end Session

end SourceAtlas
