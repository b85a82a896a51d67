import Mathlib
import SourceAtlas.Proofs.Session.Candidates
import SourceAtlas.Proofs.Session.Loading

/-! # Roots that stop a load

Whatever is absent below roots, or cannot be read or listed, is passed over. Only a root that is not
ignored can stop a load: one whose status is not told, as its path is too long or as the system
refuses a lookup on the way, or one with a tree below it that is too deep. The files below the roots
before it have then been read to no purpose.
-/

namespace SourceAtlas

namespace Config

variable {config : Config} {fs : FileSystem} {root : Path} {roots after : List Path}
  {error : FileError}

inductive StopsAt (config : Config) (fs : FileSystem) (root : Path) : FileError → Prop
  | long : ¬config.ignores root.name → ¬root.text.contains '\x00' →
      FileSystem.maxPath < root.text.utf8ByteSize →
      StopsAt config fs root (.refused .nameTooLong root)
  | refused {refusal : Refusal} : ¬config.ignores root.name → ¬root.text.contains '\x00' →
      root.text.utf8ByteSize ≤ FileSystem.maxPath →
      refusal ∉ [Refusal.noEntry, .notDirectory, .tooManyLinks] →
      fs.Meets refusal FileSystem.maxLinks (fs.origin root.anchor) root.parts →
      StopsAt config fs root (.refused refusal root)
  | deep {listing : Listing} : ¬config.ignores root.name →
      fs.status root = .ok (some (.directory listing)) →
      fs.TooDeep config.ignores (FileSystem.leadOf root) root listing →
      StopsAt config fs root .tooDeep

theorem meansAbsent_refused {refusal : Refusal} {path : Path} :
    FileSystem.meansAbsent (.refused refusal path) ↔
      refusal ∈ [Refusal.noEntry, .notDirectory, .tooManyLinks] := by
  cases refusal <;> simp [FileSystem.meansAbsent]

theorem candidates_snd_eq_some_iff_stopsAt :
    (config.candidates fs [root]).2 = some error ↔ config.StopsAt fs root error := by
  rw [candidates_snd_eq_some_iff, FileSystem.status_eq_error_iff]
  constructor
  · rintro ⟨hs, ⟨hnul, refusal, rfl, ha, hr⟩ | ⟨rfl, listing, hst, hd⟩⟩
    · split_ifs at hr with hlong
      · exact hr ▸ .long hs hnul hlong
      · exact .refused hs hnul (Nat.not_lt.mp hlong) (meansAbsent_refused.not.mp ha) hr
    · exact .deep hs hst hd
  · rintro (⟨hs, hnul, hlong⟩ | ⟨hs, hnul, hshort, ha, hm⟩ | ⟨hs, hst, hd⟩)
    · exact ⟨hs, .inl ⟨hnul, _, rfl, Bool.false_ne_true, by rw [if_pos hlong]⟩⟩
    · refine ⟨hs, .inl ⟨hnul, _, rfl, meansAbsent_refused.not.mpr ha, ?_⟩⟩
      rwa [if_neg (Nat.not_lt.mpr hshort)]
    · exact ⟨hs, .inr ⟨rfl, _, hst, hd⟩⟩

theorem candidates_snd_eq_none_iff_stopsAt :
    (config.candidates fs [root]).2 = none ↔ ∀ error, ¬config.StopsAt fs root error := by
  rw [Option.eq_none_iff_forall_ne_some]
  exact forall_congr' fun error => candidates_snd_eq_some_iff_stopsAt.not

theorem candidates_of_free (h : ∀ root ∈ roots, ∀ error, ¬config.StopsAt fs root error) :
    config.candidates fs roots =
      (roots.flatMap fun root => (config.candidates fs [root]).1, none) :=
  candidates_eq_flatMap fun root hr => candidates_snd_eq_none_iff_stopsAt.mpr (h root hr)

theorem candidates_of_stopsAt (h : ∀ other ∈ roots, ∀ error, ¬config.StopsAt fs other error)
    (hr : config.StopsAt fs root error) (after : List Path) :
    config.candidates fs (roots ++ root :: after) =
      ((roots.flatMap fun root => (config.candidates fs [root]).1) ++
        (config.candidates fs [root]).1, some error) :=
  candidates_of_error (fun other ho => candidates_snd_eq_none_iff_stopsAt.mpr (h other ho))
    (candidates_snd_eq_some_iff_stopsAt.mpr hr)

end Config

def Step.table? (s : Session) : Step → Option Table
  | .load name _ _ | .ofRoots name _ _ _ => (s.catalogs.get? name).map (·.table)
  | .loadBatch _ batch _ _ => s.batches.get? batch
  | _ => none

namespace Session

variable {s : Session} {config : Config} {roots paths : List Path} {step : Step} {before : Table}

/-- Whether a step loads the files below roots under a configuration, beside what a table holds: into
a catalog, into a batch or into a new catalog. -/
inductive Loads (s : Session) (config : Config) (roots : List Path) : Table → Step → Prop
  | load {name before pool} : s.catalogs.get? name = some ⟨config, before⟩ →
      Loads s config roots before (.load name roots pool)
  | loadBatch {name batch table pool} : s.catalogs.get? name = some ⟨config, table⟩ →
      Loads s config roots .empty (.loadBatch name batch roots pool)
  | ofRoots {name fields pool} : Config.ofFields fields = .ok config →
      Loads s config roots .empty (.ofRoots name roots fields pool)

theorem table?_filled (s : Session) (name : String) (catalog : Catalog) (paths : List Path)
    (batch : Table) :
    ((s.filled name catalog paths batch).catalogs.get? name).map (·.table) =
      some (catalog.table.merge batch) := by
  rw [filled_eq, OrderedMap.get?_insert, if_pos (beq_self_eq_true name), Option.map_some]

/-- A load whose candidates are known answers the ids of a batch and merges it. -/
theorem Loads.perform_of_none (h : s.Loads config roots before step)
    (hp : config.candidates s.files roots = (paths, none)) :
    ∃ pool : Pool, (s.perform step).2 = .ok (.ids (s.batchOf config pool paths).keys) ∧
      step.table? (s.perform step).1 = some (before.merge (s.batchOf config pool paths)) ∧
      (s.perform step).1.records = s.records ++
        (arrivals s.counter.next (s.files.texts (pool.issued config paths))).toArray := by
  cases h with
  | @load name before pool hc =>
    refine ⟨pool, ?_⟩
    rw [perform_load hc hp]
    exact ⟨rfl, table?_filled _ _ _ _ _, records_filled _ _ _ _ _⟩
  | @loadBatch name batch table pool hc =>
    refine ⟨pool, ?_⟩
    have hmerge := (s.isBatch_batchOf config pool paths).empty_merge
    simp only [perform, withCatalog, hc, read_of_none hp, Step.table?, hmerge]
    refine ⟨trivial, ?_, records_takeAll _ _⟩
    rw [OrderedMap.get?_insert, if_pos (beq_self_eq_true batch)]
  | @ofRoots name fields pool hf =>
    refine ⟨pool, ?_⟩
    have hl : s.load name ⟨config, .empty⟩ roots pool = _ := load_of_none hp
    simp only [perform, hf, Session.ofRoots, hl]
    exact ⟨rfl, table?_filled _ _ _ _ _, records_filled _ _ _ _ _⟩

theorem Loads.exists_takeAll_of_some (h : s.Loads config roots before step) {error : FileError}
    (hp : config.candidates s.files roots = (paths, some error)) :
    ∃ issued : List Path, issued.Perm paths ∧
      s.perform step = ((s.takeAll issued).1, .error (.file error)) := by
  cases h with
  | @load name before pool hc =>
    have hl : s.load name ⟨config, before⟩ roots pool = _ := load_of_some hp
    refine ⟨_, pool.perm_issued config paths, ?_⟩
    simp only [perform, withCatalog, hc, hl]
    rfl
  | @loadBatch name batch table pool hc =>
    refine ⟨_, pool.perm_issued config paths, ?_⟩
    simp only [perform, withCatalog, hc, read_of_some hp]
  | @ofRoots name _ pool hf =>
    have hl : s.load name ⟨config, .empty⟩ roots pool = _ := load_of_some hp
    refine ⟨_, pool.perm_issued config paths, ?_⟩
    simp only [perform, hf, Session.ofRoots, hl]
    rfl

/-- A load ends exactly at the first of its roots, if any, that is not ignored and of which the path
is too long, or on the way along which the system refuses a lookup, not just for want of something
there, or the tree below which is too deep. Then it fails of that and leaves catalogs and batches as
they were. Otherwise it answers a new id for each legible file below the roots, in their order. In its
table each of these leads to a record with the path and the bytes of the file, and any other id to
what it led to before. -/
theorem loads_of_roots (h : s.Loads config roots before step) :
    ((∀ root ∈ roots, ∀ error, ¬config.StopsAt s.files root error) →
      ∃ ids table, (s.perform step).2 = .ok (.ids ids) ∧
        step.table? (s.perform step).1 = some table ∧ ids.Nodup ∧
        List.Forall₂ (fun path id => ∃ record,
          (s.perform step).1.record? table id = some record ∧ record.path = some path ∧
            s.files.read path = .ok record.bytes)
          ((roots.flatMap fun root => (config.candidates s.files [root]).1).filter
            s.files.Legible) ids ∧
        table.keys = before.keys ++ ids.filter (· ∉ before.keys) ∧
        ∀ id ∉ ids, table.get? id = before.get? id) ∧
    ∀ first root after error, roots = first ++ root :: after →
      (∀ other ∈ first, ∀ error, ¬config.StopsAt s.files other error) →
        config.StopsAt s.files root error →
          (s.perform step).2 = .error (.file error) ∧
          (s.perform step).1.catalogs = s.catalogs ∧ (s.perform step).1.batches = s.batches := by
  refine ⟨fun hfree => ?_, fun first root after error hroots hfirst hr => ?_⟩
  · obtain ⟨pool, hids, htable, hrecords⟩ := h.perform_of_none (Config.candidates_of_free hfree)
    have hbatch := s.isBatch_batchOf config pool
      (roots.flatMap fun root => (config.candidates s.files [root]).1)
    refine ⟨_, _, hids, htable, hbatch.nodup_keys, ?_, OrderedMap.keys_merge hbatch.nodup_keys, ?_⟩
    · rw [OrderedMap.keys, List.forall₂_map_right_iff]
      refine (s.forall₂_batchOf config pool _).imp fun path entry hread => ?_
      obtain ⟨text, ht, hrecord⟩ := hbatch.record?_of_readAs hrecords before hread
      exact ⟨_, hrecord, rfl, FileSystem.readSource_eq_ok_iff.mp ht⟩
    · intro id hid
      rw [OrderedMap.get?_merge hbatch.nodup_keys, OrderedMap.get?_eq_none_iff.mpr hid,
        Option.none_or]
  · subst hroots
    obtain ⟨issued, -, hp⟩ :=
      h.exists_takeAll_of_some (Config.candidates_of_stopsAt hfirst hr after)
    rw [hp, takeAll_eq]
    exact ⟨rfl, rfl, rfl⟩

/-- A directory with a file and one that is not well-formed, beside a link to itself. -/
def circled : Session :=
  (start .empty []).run [.edit (.write ⟨.here, ["d", "a.js"]⟩ []),
    .edit (.write ⟨.here, ["d", "b.js"]⟩ [0xFF]), .edit (.link ⟨.here, ["loop"]⟩ "loop"),
    .create "w" []]

def oddRoots : List Path :=
  [⟨.here, ["gone", "x"]⟩, ⟨.here, ["loop"]⟩, ⟨.here, ["\x00"]⟩, ⟨.here, ["d"]⟩]

theorem loads_of_oddRoots :
    circled.Loads {} oddRoots .empty (.load "w" oddRoots) ∧
      (∀ root ∈ oddRoots, ∀ error, ¬({} : Config).StopsAt circled.files root error) ∧
      ∃ ids, (circled.perform (.load "w" oddRoots)).2 = .ok (.ids ids) ∧ ids.length = 1 := by
  have hc : circled.catalogs.get? "w" = some ⟨{}, .empty⟩ := by cbv
  have hfree : (({} : Config).candidates circled.files oddRoots).2 = none := by cbv
  have hfree : ∀ root ∈ oddRoots, ∀ error, ¬({} : Config).StopsAt circled.files root error :=
    fun root hr => Config.candidates_snd_eq_none_iff_stopsAt.mp
      (Config.candidates_snd_eq_none_iff.mp hfree root hr)
  have hcount : ((oddRoots.flatMap fun root =>
      (({} : Config).candidates circled.files [root]).1).filter
        circled.files.Legible).length = 1 := by cbv
  obtain ⟨hloads, -⟩ := loads_of_roots (.load hc : circled.Loads {} oddRoots .empty _)
  obtain ⟨ids, table, hids, -, -, hfiles, -⟩ := hloads hfree
  exact ⟨.load hc, hfree, ids, hids, hfiles.length_eq.symm.trans hcount⟩

def longName : String := String.ofList (List.replicate 256 'n')

theorem utf8ByteSize_replicate (c : Char) (count : ℕ) :
    (String.ofList (List.replicate count c)).utf8ByteSize = count * c.utf8Size := by
  rw [String.utf8ByteSize_ofList]
  induction count with
  | zero => simp
  | succ count ih => rw [List.replicate_succ, String.utf8Len_cons, ih, Nat.succ_mul]

theorem not_mem_replicate {c d : Char} (h : d ≠ c) (count : ℕ) :
    d ∉ (String.ofList (List.replicate count c)).toList := by
  rw [String.toList_ofList, List.mem_replicate]
  exact fun hm => h hm.2

theorem utf8ByteSize_longName : longName.utf8ByteSize = 256 :=
  (utf8ByteSize_replicate 'n' 256).trans (by decide)

theorem candidates_longName {fs : FileSystem} {listing : Listing}
    (ho : fs.Opens fs.here longName listing) :
    ({} : Config).candidates fs [⟨.here, [longName]⟩] =
      ([], some (.refused .nameTooLong ⟨.here, [longName]⟩)) := by
  have hn : (⟨.here, [longName]⟩ : Path).name = longName := rfl
  have hs : ¬({} : Config).ignores (⟨.here, [longName]⟩ : Path).name := by
    rw [hn]
    intro hi
    have hname : longName = "node_modules" := by simpa [Config.ignores] using hi
    have hsize := utf8ByteSize_longName
    rw [hname] at hsize
    revert hsize
    decide
  have hst := FileSystem.status_of_long_name ho (not_mem_replicate (by decide) 256)
    (by rw [utf8ByteSize_longName]; decide) (by rw [utf8ByteSize_longName]; decide)
  exact Config.candidates_of_status_error hs hst

/-- A root with a name that is too long keeps a file below another root from being loaded. -/
theorem loads_of_longName :
    let step (roots : List Path) : Step := .load "w" roots
    let found : Path := ⟨.here, ["d"]⟩
    let long : Path := ⟨.here, [longName]⟩
    (∃ ids, (circled.perform (step [found])).2 = .ok (.ids ids)) ∧
      circled.Loads {} [found, long] .empty (step [found, long]) ∧
      ¬∃ ids, (circled.perform (step [found, long])).2 = .ok (.ids ids) := by
  intro step found long
  have hc : circled.catalogs.get? "w" = some ⟨{}, .empty⟩ := by cbv
  have hids : (circled.perform (.load "w" [⟨.here, ["d"]⟩])).2 = .ok (.ids [1]) := by cbv
  have hfound : (({} : Config).candidates circled.files [⟨.here, ["d"]⟩]).2 = none := by cbv
  have hfree : ∀ root ∈ [found], ∀ error, ¬({} : Config).StopsAt circled.files root error :=
    List.forall_mem_singleton.mpr (Config.candidates_snd_eq_none_iff_stopsAt.mp hfound)
  have hopens : ∀ name, ∃ listing, circled.files.Opens circled.files.here name listing :=
    fun name => ⟨_, by cbv, by cbv⟩
  obtain ⟨listing, ho⟩ := hopens longName
  have hstops := Config.candidates_snd_eq_some_iff_stopsAt.mp
    (congrArg Prod.snd (candidates_longName ho))
  have hp := Config.candidates_of_stopsAt hfree hstops []
  have hl : circled.Loads {} [found, long] .empty (step [found, long]) := .load hc
  refine ⟨⟨_, hids⟩, hl, ?_⟩
  rintro ⟨ids, hids⟩
  obtain ⟨issued, -, hperform⟩ := hl.exists_takeAll_of_some hp
  rw [hperform] at hids
  cases hids

end Session

end SourceAtlas
