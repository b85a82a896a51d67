import Mathlib
import SourceAtlas.Proofs.Session.Obstacles
import SourceAtlas.Proofs.Session.Records
import SourceAtlas.Proofs.Session.Refreshing

/-! # Steps that fail

A load or a refresh that fails leaves the tables, the batches and the records as they were. It may
have used up ids for files that it read before it failed; these are not issued again, and no table
ever leads to what was read.
-/

namespace SourceAtlas

namespace Step

/-- Whether a step loads files, into a catalog or a batch, or refreshes one. -/
def loadsOrRefreshes : Step → Bool
  | .ofRoots .. | .load .. | .loadBatch .. | .refresh .. => true
  | _ => false

/-- The id under which a step puts a record into a catalog that was not issued for it. -/
def handId? : Step → Option Int
  | .add _ (.virtual ..) => some virtualId
  | .add _ (.full _ _ _ id _) => some id
  | _ => none

end Step

namespace Session

variable {s s' s'' : Session} {handle : Handle} {record : SourceFile} {table : Table}
  {name : String} {catalog : Catalog} {step : Step} {steps : List Step}
  {outcome : Except Failure Answer} {failure : Failure} {id : Int}

/-! ## The step that fails -/

theorem exists_takeAll_of_load {roots : List Path} {pool : Pool} {α : Type} {f : List Int → α}
    (h : (s.load name catalog roots pool).2.map f = .error failure) :
    ∃ paths, (s.load name catalog roots pool).1 = (s.takeAll paths).1 := by
  rcases hc : catalog.config.candidates s.files roots with ⟨paths, _ | error⟩
  · rw [load_of_none hc] at h
    cases h
  · exact ⟨_, by rw [load_of_some hc]⟩

theorem exists_takeAll_of_withCatalog {next : Catalog → Session × Except Failure Answer}
    (h : ∀ catalog, (next catalog).2 = .error failure → ∃ paths, (next catalog).1 =
      (s.takeAll paths).1) (hf : (s.withCatalog name next).2 = .error failure) :
    ∃ paths, (s.withCatalog name next).1 = (s.takeAll paths).1 := by
  unfold withCatalog at hf ⊢
  split
  · next catalog hc =>
    simp only [hc] at hf
    exact h catalog hf
  · exact ⟨[], rfl⟩

/-- A load or refresh that fails has at most read some files. -/
theorem exists_takeAll_of_error (hs : step.loadsOrRefreshes)
    (h : (s.perform step).2 = .error failure) :
    ∃ paths, (s.perform step).1 = (s.takeAll paths).1 := by
  cases step with
  | ofRoots name roots fields pool =>
    simp only [perform] at h ⊢
    cases hf : Config.ofFields fields with
    | error issues => exact ⟨[], rfl⟩
    | ok config =>
      simp only [hf] at h
      exact exists_takeAll_of_load h
  | load name roots pool => exact exists_takeAll_of_withCatalog (fun _ => exists_takeAll_of_load) h
  | loadBatch name batch roots pool =>
    refine exists_takeAll_of_withCatalog (fun catalog hf => ?_) h
    rcases hc : catalog.config.candidates s.files roots with ⟨paths, _ | error⟩
    · simp only [read_of_none hc] at hf
      cases hf
    · exact ⟨pool.issued catalog.config paths, by simp only [read_of_some hc]⟩
  | refresh name path =>
    refine exists_takeAll_of_withCatalog (fun catalog hf => ⟨[], ?_⟩) h
    by_cases hb : s.bars catalog.table path
    · simp only [refresh_of_bars hb]
      rfl
    · obtain ⟨found, hfound⟩ := exists_refresh_of_not_bars hb
      rcases hr : s.refresh catalog.table path with ⟨s', outcome⟩
      obtain rfl : outcome = .ok found := by simpa [hr] using hfound
      simp only [hr] at hf
      cases hf
  | _ => cases hs

/-! ## Ids of the records that steps make -/

theorem make_cases {draft : Draft} (h : s.make draft = (s', .ok record)) (name : String) :
    s'.counter.next = s.counter.next + 1 ∧ record.id = s.counter.next ∨
      s' = s ∧ (Step.add name draft).handId? = some record.id := by
  cases draft with
  | disk source path =>
    obtain ⟨rfl, hr⟩ := Prod.mk.inj h
    obtain rfl := Except.ok.inj hr
    exact .inl ⟨rfl, rfl⟩
  | «virtual» source name kind =>
    simp only [make] at h
    split at h <;> cases h
    exact .inr ⟨rfl, rfl⟩
  | full source name path id kind =>
    simp only [make] at h
    split at h <;> cases h
    exact .inr ⟨rfl, rfl⟩

theorem next_takeAll (s : Session) (paths : List Path) :
    (s.takeAll paths).1.counter.next = s.counter.next + (s.files.texts paths).length := by
  rw [takeAll_eq]

theorem Performs.next_le (h : Performs s step s' outcome) : s.counter.next ≤ s'.counter.next := by
  have htake := s.next_takeAll
  cases h with
  | retouch h _ => rw [h.counter]
  | create | merge => exact le_rfl
  | take | ofRoots | load | loadBatch =>
    refine le_of_le_of_eq ?_ (htake _).symm
    omega
  | @add name _ _ _ _ _ hm =>
    rcases make_cases hm name with ⟨hn, -⟩ | ⟨rfl, -⟩
    · exact le_of_le_of_eq (by omega) hn.symm
    · exact le_rfl

theorem id_of_arrivals {texts : List (Path × String)} {new : ℕ}
    (hr : (arrivals s.counter.next texts)[new]? = some record) :
    s.counter.next ≤ record.id ∧ record.id < s.counter.next + texts.length := by
  rw [arrivals, List.getElem?_mapIdx] at hr
  obtain ⟨text, ht, rfl⟩ := Option.map_eq_some_iff.mp hr
  obtain ⟨hlt, -⟩ := List.getElem?_eq_some_iff.mp ht
  simp only [SourceFile.ofDisk, SourceFile.make]
  omega

/-- A record that a step makes has an id that the step issues, or was put in by hand. -/
theorem Performs.id_cases (h : Performs s step s' outcome) (hs : s.records.size ≤ handle)
    (hr : s'.records[handle]? = some record) :
    s.counter.next ≤ record.id ∧ record.id < s'.counter.next ∨ step.handId? = some record.id := by
  obtain ⟨hlt, -⟩ := Array.getElem?_eq_some_iff.mp hr
  have taken : ∀ paths, s'.records = (s.takeAll paths).1.records →
      s'.counter.next = (s.takeAll paths).1.counter.next →
        s.counter.next ≤ record.id ∧ record.id < s'.counter.next := by
    intro paths hrecords hnext
    rw [hrecords, records_takeAll, Array.getElem?_append_right hs, List.getElem?_toArray] at hr
    rw [hnext, next_takeAll]
    exact id_of_arrivals hr
  cases h with
  | retouch h _ => exact absurd (h.size_eq ▸ hlt) (Nat.not_lt.mpr hs)
  | create | merge => exact absurd hlt (Nat.not_lt.mpr hs)
  | take | ofRoots | load | loadBatch => exact .inl (taken _ rfl rfl)
  | @add name _ _ made _ _ hm =>
    rw [records_add, records_make hm, Array.getElem?_append_right hs] at hr
    obtain rfl := by simpa using Array.mem_of_getElem? hr
    rcases make_cases hm name with ⟨hn, hid⟩ | ⟨-, hid⟩
    · refine .inl ⟨hid.ge, lt_of_lt_of_eq (?_ : _ < s.counter.next + 1) hn.symm⟩
      omega
    · exact .inr hid

theorem Keeps.trans (h : Keeps s s') (h' : Keeps s' s'') : Keeps s s'' := by
  intro handle record hr
  obtain ⟨record', hr', hw⟩ := h handle record hr
  obtain ⟨record'', hr'', hw'⟩ := h' handle record' hr'
  exact ⟨record'', hr'', hw.trans hw'⟩

theorem Keeps.size_le (h : Keeps s s') : s.records.size ≤ s'.records.size := by
  by_contra hlt
  obtain ⟨_, hr, -⟩ := h s'.records.size _
    (Array.getElem?_eq_getElem (i := s'.records.size) (by omega))
  simp at hr

/-- What a step puts into a table is a record that it makes. -/
theorem Performs.entry_cases (h : Performs s step s' outcome) (ht : s'.HasTable table)
    {entry : Int × Handle} (he : entry ∈ table.entries) :
    (∃ old, s.HasTable old ∧ entry ∈ old.entries) ∨ s.records.size ≤ entry.2 := by
  have hbatch : ∀ paths (batch : Table), s.IsBatch paths batch → entry ∈ batch.entries →
      s.records.size ≤ entry.2 := by
    intro paths batch hb he
    obtain ⟨i, -, rfl⟩ := hb.mem_entries_iff.mp he
    exact Nat.le_add_right _ _
  cases h with
  | retouch h _ => exact .inl ⟨table, (hasTable_of_retouched h).mp ht, he⟩
  | create =>
    rcases ht.of_create with rfl | ht
    · cases he
    · exact .inl ⟨table, ht, he⟩
  | take => exact .inl ⟨table, hasTable_takeAll.mp ht, he⟩
  | ofRoots hb =>
    rcases HasTable.of_filled ht with rfl | ht
    · rcases OrderedMap.mem_entries_merge he with he | he
      · cases he
      · exact .inr (hbatch _ _ hb he)
    · exact .inl ⟨table, ht, he⟩
  | load hc hb =>
    rcases HasTable.of_filled ht with rfl | ht
    · rcases OrderedMap.mem_entries_merge he with he | he
      · exact .inl ⟨_, .inl ⟨_, _, hc, rfl⟩, he⟩
      · exact .inr (hbatch _ _ hb he)
    · exact .inl ⟨table, ht, he⟩
  | loadBatch hb =>
    rcases HasTable.of_loadBatch ht with rfl | ht
    · exact .inr (hbatch _ _ hb he)
    · exact .inl ⟨table, ht, he⟩
  | merge hc hm =>
    rcases HasTable.of_setTable ht with rfl | ht
    · rcases OrderedMap.mem_entries_merge he with he | he
      · exact .inl ⟨_, .inl ⟨_, _, hc, rfl⟩, he⟩
      · exact .inl ⟨_, hm, he⟩
    · exact .inl ⟨table, ht, he⟩
  | add hc hm =>
    rcases HasTable.of_setTable ht with rfl | ht
    · rcases OrderedMap.mem_entries_insert he with rfl | he
      · exact .inr (by rw [records_make hm])
      · exact .inl ⟨_, .inl ⟨_, _, hc, rfl⟩, he⟩
    · exact .inl ⟨table, (hasTable_of_make hm).mp ht, he⟩

/-! ## Whole runs -/

theorem next_le_run (s : Session) (steps : List Step) :
    s.counter.next ≤ (s.run steps).counter.next := by
  induction steps using List.reverseRecOn with
  | nil => exact le_rfl
  | append_singleton steps step ih =>
    rw [run_append]
    exact ih.trans (performs _ step).next_le

theorem keeps_run (s : Session) (steps : List Step) : Keeps s (s.run steps) := by
  induction steps using List.reverseRecOn with
  | nil => exact .of_eq rfl
  | append_singleton steps step ih =>
    rw [run_append]
    exact ih.trans (performs _ step).keeps

/-- A record that a run makes has an id that the run issues, or was put in by hand. -/
theorem id_cases_run (hs : s.records.size ≤ handle)
    (hr : (s.run steps).records[handle]? = some record) :
    s.counter.next ≤ record.id ∧ record.id < (s.run steps).counter.next ∨
      ∃ step ∈ steps, step.handId? = some record.id := by
  induction steps using List.reverseRecOn generalizing record with
  | nil =>
    obtain ⟨hlt, -⟩ := Array.getElem?_eq_some_iff.mp hr
    exact absurd hlt (Nat.not_lt.mpr hs)
  | append_singleton steps step ih =>
    rw [run_append] at hr ⊢
    have hp := performs (s.run steps) step
    rcases Nat.lt_or_ge handle (s.run steps).records.size with hlt | hge
    · -- A record from before the last step may have another text, but not another id.
      obtain ⟨record', hr', hw⟩ := hp.keeps handle _ (Array.getElem?_eq_getElem hlt)
      obtain rfl := Option.some.inj (hr'.symm.trans hr)
      rw [hw.id_eq]
      rcases ih (Array.getElem?_eq_getElem hlt) with ⟨hle, hid⟩ | ⟨maker, hm, hid⟩
      · exact .inl ⟨hle, hid.trans_le hp.next_le⟩
      · exact .inr ⟨maker, List.mem_append_left _ hm, hid⟩
    · rcases hp.id_cases hge hr with ⟨hle, hid⟩ | hid
      · exact .inl ⟨(s.next_le_run steps).trans hle, hid⟩
      · exact .inr ⟨step, by simp, hid⟩

/-- What a run puts into a table is a record that it makes. -/
theorem entry_cases_run (ht : (s.run steps).HasTable table) {entry : Int × Handle}
    (he : entry ∈ table.entries) :
    (∃ old, s.HasTable old ∧ entry ∈ old.entries) ∨ s.records.size ≤ entry.2 := by
  induction steps using List.reverseRecOn generalizing table with
  | nil => exact .inl ⟨table, ht, he⟩
  | append_singleton steps step ih =>
    rw [run_append] at ht
    rcases (performs _ step).entry_cases ht he with ⟨old, ho, he⟩ | hle
    · exact ih ho he
    · exact .inr ((s.keeps_run steps).size_le.trans hle)

theorem exists_hand_of_lt (hs : s.records.size ≤ handle)
    (hr : (s.run steps).records[handle]? = some record) (hlt : record.id < s.counter.next) :
    ∃ step ∈ steps, step.handId? = some record.id := by
  rcases id_cases_run hs hr with ⟨hge, -⟩ | hstep
  · exact absurd hlt (not_lt.mpr hge)
  · exact hstep

theorem exists_hand_of_le {files : FileSystem} {trees : List (String × Tree)}
    (hr : ((start files trees).run steps).records[handle]? = some record)
    (hle : ((start files trees).run steps).counter.next ≤ record.id) :
    ∃ step ∈ steps, step.handId? = some record.id := by
  rcases id_cases_run (Nat.zero_le _) hr with ⟨-, hlt⟩ | hstep
  · exact absurd hlt (not_lt.mpr hle)
  · exact hstep

/-! ## After files were read to no purpose -/

theorem Kept.takeAll (hs : s.Kept) (paths : List Path) : (s.takeAll paths).1.Kept := by
  have hp : Performs s (.load "" []) (s.takeAll paths).1 (.error .interrupted) := .take rfl
  exact hp.kept hs

theorem lt_size_of_mem (hs : s.Kept) (ht : s.HasTable table) {entry : Int × Handle}
    (he : entry ∈ table.entries) : entry.2 < s.records.size := by
  obtain ⟨record, hr, -⟩ := hs.binds table ht entry.1 entry.2 he
  exact (Array.getElem?_eq_some_iff.mp hr).1

theorem handle_cases_of_takeAll (hs : s.Kept) {paths : List Path} {later : List Step}
    (ht : ((s.takeAll paths).1.run later).HasTable table) {entry : Int × Handle}
    (he : entry ∈ table.entries) :
    entry.2 < s.records.size ∨ (s.takeAll paths).1.records.size ≤ entry.2 := by
  rcases entry_cases_run ht he with ⟨old, ho, he⟩ | hle
  · exact .inl (lt_size_of_mem hs (hasTable_takeAll.mp ho) he)
  · exact .inr hle

/-- An id that was used up for a file which came into no table is found in one only if it was put
there by hand, before or after. -/
theorem exists_hand_of_key {files : FileSystem} {trees : List (String × Tree)} {paths : List Path}
    {later : List Step} (hs : s = (start files trees).run steps)
    (ht : ((s.takeAll paths).1.run later).HasTable table) (hk : id ∈ table.keys)
    (hge : s.counter.next ≤ id) (hlt : id < (s.takeAll paths).1.counter.next) :
    ∃ step ∈ steps ++ later, step.handId? = some id := by
  have hkept : s.Kept := hs ▸ (kept_start files trees).run steps
  have hkeeps : Keeps s ((s.takeAll paths).1.run later) :=
    (Keeps.of_append (records_takeAll s paths)).trans (keeps_run _ later)
  obtain ⟨handle, he⟩ := OrderedMap.mem_keys_iff.mp hk
  obtain ⟨record, hr, rfl⟩ := ((hkept.takeAll paths).run later).binds table ht id handle he
  -- A record from before was issued a lower id, and one from after is issued a higher id.
  rcases handle_cases_of_takeAll hkept ht he with hold | hnew
  · obtain ⟨record', hr', hw⟩ := hkeeps handle _ (Array.getElem?_eq_getElem hold)
    obtain rfl := Option.some.inj (hr'.symm.trans hr)
    have ho := Array.getElem?_eq_getElem hold
    subst hs
    obtain ⟨maker, hm, hid⟩ := exists_hand_of_le ho (hw.id_eq ▸ hge)
    exact ⟨maker, List.mem_append_left _ hm, hw.id_eq ▸ hid⟩
  · obtain ⟨maker, hm, hid⟩ := exists_hand_of_lt hnew hr hlt
    exact ⟨maker, List.mem_append_right _ hm, hid⟩

/-- In every session that steps lead to, a load or a refresh that fails leaves the files, the
catalogs with their tables, the batches and every record as they were; it only adds to the log and
moves the counter on.

Whatever steps come later, no table leads to a record that the failed step read, and the counter
stays behind the ids that the step used up. One of these is the id of a record that was made later,
or is found in a table, only if a step put a record in under it by hand. -/
theorem unchanged_of_failing (files : FileSystem) (trees : List (String × Tree))
    (steps : List Step) (hs : step.loadsOrRefreshes)
    (h : (((start files trees).run steps).perform step).2 = .error failure) :
    let s := (start files trees).run steps
    let s' := (s.perform step).1
    (s'.files = s.files ∧ s'.trees = s.trees ∧ s'.catalogs = s.catalogs ∧ s'.batches = s.batches ∧
      ∀ handle : Handle, handle < s.records.size → s'.records[handle]? = s.records[handle]?) ∧
    s.log <+: s'.log ∧ s.counter.next ≤ s'.counter.next ∧
    ∀ later, let t := s'.run later
      (∀ table, t.HasTable table → ∀ entry ∈ table.entries,
        entry.2 < s.records.size ∨ s'.records.size ≤ entry.2) ∧
      ∀ id, s.counter.next ≤ id → id < s'.counter.next →
        id < t.counter.issue.1 ∧
        (∀ (handle : Handle) (record : SourceFile), s'.records.size ≤ handle →
          t.records[handle]? = some record → record.id = id →
            ∃ step ∈ later, step.handId? = some id) ∧
        ∀ table, t.HasTable table → id ∈ table.keys →
          ∃ step ∈ steps ++ later, step.handId? = some id := by
  intro s s'
  obtain ⟨paths, htake⟩ := exists_takeAll_of_error hs h
  have htake : s' = (s.takeAll paths).1 := htake
  have hkept : s.Kept := (kept_start files trees).run steps
  rw [htake]
  refine ⟨⟨?_, ?_, ?_, ?_, fun handle hlt => ?_⟩, ?_, ?_, fun later => ⟨fun table ht entry he => ?_,
    fun id hge hlt => ⟨?_, fun handle record hle hr hid => ?_, fun table ht hk => ?_⟩⟩⟩
  iterate 4 rw [takeAll_eq]
  · rw [records_takeAll, Array.getElem?_append_left hlt]
  · rw [takeAll_eq]
    exact List.prefix_append _ _
  · rw [next_takeAll]
    omega
  · exact handle_cases_of_takeAll hkept ht he
  · exact hlt.trans_le (next_le_run _ later)
  · subst hid
    exact exists_hand_of_lt hle hr hlt
  · exact exists_hand_of_key rfl ht hk hge hlt

def loadedOnce : List Step :=
  [.edit (.write ⟨.here, ["d", "a.js"]⟩ []), .create "w" [], .load "w" [⟨.here, ["d"]⟩]]

/-- Loads the directory again, and behind it a name that is too long. -/
def overlong : Step :=
  .load "w" [⟨.here, ["d"]⟩, ⟨.here, [longName]⟩]

theorem perform_overlong :
    ((start .empty []).run loadedOnce).perform overlong =
      ((((start .empty []).run loadedOnce).takeAll [⟨.here, ["d", "a.js"]⟩]).1,
        .error (.file (.refused .nameTooLong ⟨.here, [longName]⟩))) := by
  have hc : ((start .empty []).run loadedOnce).catalogs.get? "w" = some ⟨{}, ⟨[(1, 0)]⟩⟩ := by cbv
  have hfound : ({} : Config).candidates ((start .empty []).run loadedOnce).files
      [⟨.here, ["d"]⟩] = ([⟨.here, ["d", "a.js"]⟩], none) := by cbv
  have hopens : ∀ name, ∃ listing, ((start .empty []).run loadedOnce).files.Opens
      ((start .empty []).run loadedOnce).files.here name listing := fun name => ⟨_, by cbv, by cbv⟩
  obtain ⟨listing, ho⟩ := hopens longName
  have hp : ({} : Config).candidates ((start .empty []).run loadedOnce).files
      ([⟨.here, ["d"]⟩] ++ [⟨.here, [longName]⟩]) = ([⟨.here, ["d", "a.js"]⟩],
        some (.refused .nameTooLong ⟨.here, [longName]⟩)) := by
    rw [Config.candidates_append (congrArg Prod.snd hfound), hfound, candidates_longName ho]
    rfl
  have hl : ((start .empty []).run loadedOnce).load "w" ⟨{}, ⟨[(1, 0)]⟩⟩
      ([⟨.here, ["d"]⟩] ++ [⟨.here, [longName]⟩]) = _ := load_of_some hp
  rw [Pool.issued_of_le_one (by decide)] at hl
  simp only [overlong, perform, withCatalog, hc]
  exact congrArg (fun outcome => (outcome.1, outcome.2.map Answer.ids)) hl

theorem unchanged_of_overlong :
    let s := (start .empty []).run loadedOnce
    let s' := (s.perform overlong).1
    let later : List Step := [.load "w" [⟨.here, ["d"]⟩]]
    overlong.loadsOrRefreshes ∧
      (s.perform overlong).2 = .error (.file (.refused .nameTooLong ⟨.here, [longName]⟩)) ∧
      s.counter.next = 2 ∧ s'.counter.next = 3 ∧ s'.catalogs = s.catalogs ∧
      (s'.run later).catalogs.get? "w" = some ⟨{}, ⟨[(1, 0), (3, 2)]⟩⟩ ∧
      ∀ table, (s'.run later).HasTable table → 2 ∉ table.keys := by
  intro s s' later
  have hfail : (s.perform overlong).2 =
      .error (.file (.refused .nameTooLong ⟨.here, [longName]⟩)) := by rw [perform_overlong]
  have hnext : ((start .empty []).run loadedOnce).counter.next = 2 := by cbv
  have hnext' : s'.counter.next = 3 := by
    simp only [s', s, perform_overlong]
    cbv
  have hlater : (s'.run later).catalogs.get? "w" = some ⟨{}, ⟨[(1, 0), (3, 2)]⟩⟩ := by
    simp only [s', s, perform_overlong]
    cbv
  obtain ⟨⟨-, -, hcatalogs, -, -⟩, -, -, hruns⟩ :=
    unchanged_of_failing .empty [] loadedOnce rfl hfail
  refine ⟨rfl, hfail, hnext, hnext', hcatalogs, hlater, fun table ht hk => ?_⟩
  obtain ⟨-, hids⟩ := hruns later
  obtain ⟨-, -, hkeys⟩ := hids 2 hnext.le (by rw [hnext']; decide)
  obtain ⟨maker, hm, hid⟩ := hkeys table ht hk
  revert hid
  revert maker
  decide

/-- A record can be put in by hand under an id that a failed load used up. -/
theorem unchanged_of_handMade :
    let s := (start .empty []).run loadedOnce
    let s' := (s.perform overlong).1
    let later : List Step := [.add "w" (.full "" "n" none 2 (.text "script"))]
    (s.perform overlong).2 = .error (.file (.refused .nameTooLong ⟨.here, [longName]⟩)) ∧
      s.counter.next ≤ 2 ∧ 2 < s'.counter.next ∧
      ¬∀ table, (s'.run later).HasTable table → 2 ∉ table.keys := by
  intro s s' later
  have hnext : ((start .empty []).run loadedOnce).counter.next = 2 := by cbv
  have hnext' : s'.counter.next = 3 := by
    simp only [s', s, perform_overlong]
    cbv
  have hlater : (s'.run later).catalogs.get? "w" = some ⟨{}, ⟨[(1, 0), (2, 2)]⟩⟩ := by
    simp only [s', s, perform_overlong]
    cbv
  refine ⟨by rw [perform_overlong], hnext.le, by rw [hnext']; decide, fun h => ?_⟩
  exact h _ (.inl ⟨"w", _, hlater, rfl⟩) (by decide)

end Session

end SourceAtlas
