import Mathlib
import SourceAtlas.Proofs.FileSystem.Pruning
import SourceAtlas.Proofs.Session.Candidates
import SourceAtlas.Proofs.Session.Loaded

/-! # What loads do not see

A load finds the same candidates and reads the same from them in two trees that differ only in
ignored names, with all below them, and in regular files that are not read. So it leaves the same
session, but for the tree, and answers the same, up to the order of issue.
-/

namespace SourceAtlas

variable {config : Config} {fs other : FileSystem} {path : Path}

/-! ## Reading -/

def Entry.bytes? : Entry → Option Bytes
  | .file bytes => some bytes
  | _ => none

theorem Entry.map_bytes?_visible {name : String} (hr : config.readsName name)
    (found : Option Entry) :
    (found.bind (Entry.visible config name)).map Entry.bytes? = found.map Entry.bytes? := by
  cases found with
  | none => rfl
  | some entry => cases entry <;> simp [visible, isUnread, pruned, bytes?, hr]

theorem Entry.map_bytes?_find? {name : String} {listing listing' : Listing}
    (h : (Entry.directory listing).Distinct) (h' : (Entry.directory listing').Distinct)
    (hpruned : Listing.pruned config listing' = Listing.pruned config listing)
    (hn : ¬config.ignores name) (hr : config.readsName name) :
    (listing'.find? name).map Entry.bytes? = (listing.find? name).map Entry.bytes? := by
  have hseen : ∀ {listing : Listing}, (Entry.directory listing).Distinct →
      (listing.find? name).map Entry.bytes? =
        (Listing.find? (Listing.pruned config listing) name).map Entry.bytes? := by
    intro listing h
    rw [Listing.find?_pruned h.pairwise hn, Entry.map_bytes?_visible hr]
  rw [hseen h, hseen h', hpruned]

theorem Entry.visible_file {name : String} {bytes : Bytes} :
    (Entry.file bytes).visible config name =
      if config.readsName name then some (.file bytes) else none := by
  cases hr : config.readsName name <;> simp [visible, isUnread, pruned, hr]

theorem Entry.visible_eq_some_file {name : String} {entry : Entry} {bytes : Bytes}
    (h : entry.visible config name = some (.file bytes)) : entry = .file bytes := by
  cases entry with
  | file other =>
    rw [visible_file] at h
    split_ifs at h
    exact Option.some.inj h
  | link target => simp [visible, isUnread, pruned] at h
  | directory inner => simp [visible, isUnread, pruned] at h

namespace FileSystem

variable {anchor : Anchor} {found : List String × Entry} {names : List String} {entry : Entry}
  {parent root : Path} {name : String} {lead : ℕ} {bytes : Bytes} {roots : List Path}

/-- What reading comes to at the end of names that lead to an entry. -/
def contentOf (fs : FileSystem) (anchor : Anchor) (found : List String × Entry) :
    Except Refusal Bytes :=
  match fs.refusesFrom anchor found.1 .read with
  | some refusal => .error refusal
  | none => found.2.bytes?.elim (.error .isDirectory) .ok

theorem read_eq (hp : fs.IsPlain) (hd : ".." ∉ path.parts) :
    fs.read path =
      if path.text.contains '\x00' then .error .embeddedNul
      else if maxPath < path.text.utf8ByteSize then .error (.refused .nameTooLong path)
      else ((fs.trace path).bind (fs.contentOf path.anchor)).mapError (.refused · path) := by
  rw [read, reach_eq hp hd]
  split_ifs
  · rfl
  · rfl
  · cases ht : fs.trace path with
    | error refusal => rfl
    | ok found =>
      obtain ⟨names, entry⟩ := found
      simp only [Except.map, Except.mapError, Except.bind, contentOf, refusesFrom]
      cases fs.refuses (fs.origin path.anchor ++ names) .read with
      | some refusal => rfl
      | none => cases entry <;> rfl

/-- The names that were found and the bytes behind them. -/
def bytesAt (found : List String × Entry) : List String × Option Bytes :=
  (found.1, found.2.bytes?)

theorem resolve_singleton_fst {refuses : List String → Access → Option Refusal}
    (hs : ¬stays name) (h : resolve refuses names entry [name] = .ok found) :
    found.1 = names ++ [name] := by
  cases entry with
  | file | link => cases h
  | directory listing =>
    rw [resolve] at h
    split at h
    · cases h
    · split_ifs at h
      split at h
      · cases h
      · obtain rfl := Except.ok.inj h
        rfl

/-- Under a name that is read there are the same bytes in two directories in which the same is
seen. -/
theorem map_bytesAt_resolve {listing listing' : Listing}
    {refuses refuses' : List String → Access → Option Refusal}
    (hd : (Entry.directory listing).Distinct) (hd' : (Entry.directory listing').Distinct)
    (hpruned : Listing.pruned config listing' = Listing.pruned config listing)
    (hn : ¬config.ignores name) (hr : config.readsName name) (hs : ¬stays name)
    (href : refuses names (.find name) = refuses' names (.find name)) :
    (resolve refuses' names (.directory listing') [name]).map bytesAt =
      (resolve refuses names (.directory listing) [name]).map bytesAt := by
  have hfound := Entry.map_bytes?_find? hd hd' hpruned hn hr
  rw [resolve.eq_def refuses, resolve.eq_def refuses']
  dsimp only
  rw [href]
  cases refuses' names (.find name) with
  | some refusal => rfl
  | none =>
    dsimp only
    rw [if_neg hs, if_neg hs]
    split_ifs
    · rfl
    · cases hf : Listing.find? listing name <;> cases hf' : Listing.find? listing' name <;>
        simp_all [resolve, Except.map, bytesAt]

section Alike

variable (h : Alike config fs other)
include h

/-- Where the same bytes are found under names that are seen, the same is read. -/
theorem Alike.read_eq_of_bytesAt (hd : ".." ∉ path.parts)
    (ht : (other.trace path).map bytesAt = (fs.trace path).map bytesAt)
    (hs : ∀ found, fs.trace path = .ok found → Access.read.IsSeen config found.1) :
    other.read path = fs.read path := by
  rw [read_eq h.plain_other hd, read_eq h.plain hd]
  suffices hsame : (other.trace path).bind (other.contentOf path.anchor) =
      (fs.trace path).bind (fs.contentOf path.anchor) by rw [hsame]
  cases hf : fs.trace path with
  | error refusal =>
    rw [hf] at ht
    cases ho : other.trace path with
    | error refusal' =>
      rw [ho] at ht
      exact congrArg Except.error (Except.error.inj ht)
    | ok found' =>
      rw [ho] at ht
      cases ht
  | ok found =>
    rw [hf] at ht
    cases ho : other.trace path with
    | error refusal =>
      rw [ho] at ht
      cases ht
    | ok found' =>
      rw [ho] at ht
      obtain ⟨hnames, hbytes⟩ := Prod.mk.inj (Except.ok.inj ht)
      rw [Except.bind, Except.bind, contentOf, contentOf, hnames, hbytes,
        h.refuses _ _ _ (hs found hf)]

/-- A root that is a file is read alike. -/
theorem Alike.read_of_file (hr : config.reads path)
    (hs : ∀ part ∈ path.parts, ¬config.ignores part ∧ part ≠ "..")
    (hf : fs.status path = .ok (some (.file bytes))) : other.read path = fs.read path := by
  have hd : ".." ∉ path.parts := fun hm => (hs _ hm).2 rfl
  obtain ⟨chain, hreach⟩ := exists_reach_of_status hf
  obtain ⟨-, -, names, ht, -⟩ := (reach_eq_ok_iff h.plain hd).mp hreach
  have hlast : config.readsName (names.getLastD "") := by
    have hvisible : (Entry.file bytes).visible config path.name =
        (Entry.file bytes).visible config (names.getLastD "") := visible_name ht
    have hname : config.readsName path.name := hr
    rw [Entry.visible_file, Entry.visible_file, if_pos hname] at hvisible
    by_contra hn
    rw [if_neg hn] at hvisible
    cases hvisible
  have hfound : visibleAt config (names, .file bytes) = some (names, .file bytes) := by
    rw [visibleAt, Entry.visible_file, if_pos hlast, Option.map_some]
  refine h.read_eq_of_bytesAt hd ?_ fun found hm => ?_
  · have hseen := h.map_visibleAt_trace fun part hp => (hs part hp).1
    rw [ht] at hseen
    rw [ht]
    cases ho : other.trace path with
    | error refusal =>
      rw [ho] at hseen
      cases refusal <;> simp [present, Except.map, hfound] at hseen
    | ok found' =>
      obtain ⟨names', entry⟩ := found'
      simp only [ho, present, Except.map, Option.bind_some, hfound, Except.ok.injEq] at hseen
      obtain ⟨visible, hv, he⟩ := Option.map_eq_some_iff.mp hseen.symm
      obtain ⟨rfl, rfl⟩ := Prod.mk.inj he
      obtain rfl := Entry.visible_eq_some_file hv
      rfl
  · obtain rfl := Except.ok.inj (ht.symm.trans hm)
    refine ⟨fun name hn => ?_, hlast⟩
    exact (hs name ((mem_of_resolveFrom ht name hn).resolve_left List.not_mem_nil)).1

/-- What has a name that is read is read alike in a directory that is listed. -/
theorem Alike.read_child (hl : fs.lists lead parent)
    (hs : ∀ part ∈ parent.parts, ¬config.ignores part ∧ part ≠ "..") (hn : ¬config.ignores name)
    (hproper : IsProper name) (hr : config.readsName name) :
    other.read (parent.child name) = fs.read (parent.child name) := by
  unfold lists at hl
  obtain ⟨-, hl⟩ := Bool.and_eq_true_iff.mp hl
  split at hl
  case h_2 => cases hl
  next chain listing hreach =>
  obtain ⟨names, listing', -, hnames, ht, ht', hreach', hpruned⟩ := h.exists_reach hs hreach
  have hd : ".." ∉ (parent.child name).parts := by
    intro hm
    rcases List.mem_append.mp hm with hm | hm
    · exact (hs _ hm).2 rfl
    · exact hproper.2 (List.mem_singleton.mp hm).symm
  have hchild : fs.trace (parent.child name) =
      resolve (fs.refusesFrom parent.anchor) names (.directory listing) [name] :=
    resolveFrom_append ht [name]
  have hchild' : other.trace (parent.child name) =
      resolve (other.refusesFrom parent.anchor) names (.directory listing') [name] :=
    resolveFrom_append ht' [name]
  refine h.read_eq_of_bytesAt hd ?_ fun found hf => ?_
  · rw [hchild, hchild']
    exact map_bytesAt_resolve (distinct_of_status (status_of_reach hreach))
      (distinct_of_status (status_of_reach hreach')) hpruned hn hr hproper.1
      (h.refuses _ _ _ ⟨hnames, hn⟩)
  · rw [resolve_singleton_fst hproper.1 (hchild ▸ hf)]
    refine ⟨fun other ho => ?_, by rwa [List.getLastD_concat]⟩
    rcases List.mem_append.mp ho with ho | ho
    · exact hnames other ho
    · exact List.mem_singleton.mp ho ▸ hn

/-- Every candidate below roots without ignored names is read alike in two trees that are alike. -/
theorem Alike.read_of_mem_candidates
    (hs : ∀ root ∈ roots, ∀ part ∈ root.parts, ¬config.ignores part ∧ part ≠ "..")
    (hp : path ∈ (config.candidates fs roots).1) : other.read path = fs.read path := by
  obtain ⟨hreads, root, hr, hw⟩ := Config.exists_walk_of_mem_candidates hp
  have hroot := hs root hr
  rcases walk_cases fs config.ignores root with
    (hi | hn) | ⟨hi, ⟨error, he⟩ | ⟨entry, he, hd⟩ | ⟨listing, he⟩⟩
  · rw [walk_of_skipped hi] at hw
    cases hw
  · rw [walk_of_none hn] at hw
    cases hw
  · rw [walk_of_error hi he] at hw
    simp at hw
  · rw [walk_of_other hi he hd] at hw
    obtain rfl : path = root := Except.ok.inj (List.mem_singleton.mp hw)
    cases plain_of_status h.plain he with
    | file bytes => exact h.read_of_file hreads hroot he
    | directory => exact absurd rfl (hd _)
  · rw [walk_of_directory hi he] at hw
    have hdistinct := distinct_of_status he
    have hplain := plain_of_status h.plain he
    obtain ⟨names, hy, rfl⟩ := exists_yields_of_mem hdistinct hw
    obtain ⟨before, name, inner, entry, rfl, hleads, hn, hf, -⟩ :=
      (yields_iff_fileBelow hdistinct).mp hy
    have hproper := isProper_of_entryAt? hplain hleads.entryAt
    have hinner := plain_of_entryAt? hplain hleads.entryAt
    have hlists := hleads.lists before.length le_rfl
    rw [List.take_length] at hlists
    have hchild : root.descend (before ++ [name]) = (root.descend before).child name := by
      simp [Path.descend, Path.child]
    rw [hchild] at hreads ⊢
    refine h.read_child hlists (fun part hpart => ?_) hn
      (hinner.isProper (Listing.mem_of_find? hf)) (reads_child ▸ hreads)
    rcases List.mem_append.mp hpart with hpart | hpart
    · exact hroot part hpart
    · exact ⟨hleads.not_skipped part hpart, (hproper part hpart).2⟩

/-- Two trees that are alike have the same candidates below roots without ignored names. -/
theorem Alike.candidates_eq
    (hs : ∀ root ∈ roots, ∀ part ∈ root.parts, ¬config.ignores part ∧ part ≠ "..") :
    config.candidates other roots = config.candidates fs roots := by
  rw [Config.candidates, Config.candidates]
  refine congrArg upToError (List.flatMap_congr fun root hr => ?_)
  exact (h.filter_walk_eq (hs root hr)).symm

end Alike

end FileSystem

/-! ## Loading -/

theorem FileSystem.outcomes_congr {paths : List Path}
    (h : ∀ path ∈ paths, other.readSource path = fs.readSource path) (next : Int) (size : ℕ) :
    other.outcomes next size paths = fs.outcomes next size paths := by
  induction paths generalizing next size with
  | nil => rfl
  | cons path rest ih =>
    obtain ⟨hpath, hrest⟩ := List.forall_mem_cons.mp h
    cases hr : fs.readSource path with
    | error e => rw [outcomes_cons_of_error hr, outcomes_cons_of_error (hpath.trans hr), ih hrest]
    | ok source => rw [outcomes_cons_of_ok hr, outcomes_cons_of_ok (hpath.trans hr), ih hrest]

namespace Session

variable {s : Session} {catalog : Catalog} {name : String} {paths roots : List Path} {pool : Pool}
  {error : FileError}

def withFiles (s : Session) (files : FileSystem) : Session :=
  { s with files }

theorem takeAll_withFiles
    (h : ∀ path ∈ paths, other.readSource path = s.files.readSource path) :
    (s.withFiles other).takeAll paths =
      ((s.takeAll paths).1.withFiles other, (s.takeAll paths).2) := by
  have htexts : other.texts paths = s.files.texts paths :=
    List.filterMap_congr fun path hp => by rw [h path hp]
  have hwarnings : other.warnings paths = s.files.warnings paths :=
    List.filterMap_congr fun path hp => by rw [h path hp]
  rw [takeAll_eq, takeAll_eq]
  simp only [withFiles, htexts, hwarnings, FileSystem.outcomes_congr h]

/-- A pool leaves and answers the same with any tree that has the same candidates to read. -/
theorem load_withFiles
    (hc : catalog.config.candidates other roots = catalog.config.candidates s.files roots)
    (hr : ∀ path ∈ (catalog.config.candidates s.files roots).1,
      other.readSource path = s.files.readSource path) (pool : Pool) :
    (s.withFiles other).load name catalog roots pool =
      ((s.load name catalog roots pool).1.withFiles other,
        (s.load name catalog roots pool).2) := by
  cases hp : catalog.config.candidates s.files roots with
  | mk paths failure =>
    rw [hp] at hc hr
    have htake : (s.withFiles other).takeAll (pool.issued catalog.config paths) = _ :=
      takeAll_withFiles fun path hpath =>
        hr path ((pool.perm_issued catalog.config paths).mem_iff.mp hpath)
    unfold Pool.issued at htake
    have hother : catalog.config.candidates (s.withFiles other).files roots = (paths, failure) := hc
    simp only [load, extend, read, hp, hother, htake]
    cases failure <;> rfl

theorem perform_load_of_some (hc : s.catalogs.get? name = some catalog)
    (hp : catalog.config.candidates s.files roots = (paths, some error)) (pool : Pool) :
    s.perform (.load name roots pool) =
      ((s.takeAll (pool.issued catalog.config paths)).1, .error (.file error)) := by
  simp only [perform, withCatalog, hc, load_of_some hp]
  rfl

/-- Two pools leave and answer the same of a load up to the order of issue. -/
theorem load_of_pools (hc : s.catalogs.get? name = some catalog) (roots : List Path)
    (pool pool' : Pool) :
    let left := s.perform (.load name roots pool)
    let right := s.perform (.load name roots pool')
    left.1.counter = right.1.counter ∧ left.1.log.Perm right.1.log ∧
      ((∃ error, left.2 = .error error ∧ right.2 = .error error ∧
          left.1.catalogs = s.catalogs ∧ right.1.catalogs = s.catalogs) ∨
        ∃ paths ids table ids' table', left.2 = .ok (.ids ids) ∧ right.2 = .ok (.ids ids') ∧
          s.Loaded name catalog paths left.1 table ids ∧
          s.Loaded name catalog paths right.1 table' ids') ∧
      ((∀ used ∈ [pool, pool'], used.size catalog.config.maxWorkers ≤ 1) → left = right) := by
  intro left right
  cases hp : catalog.config.candidates s.files roots with
  | mk paths failure =>
    have hlength := (s.length_texts_issued catalog.config pool paths).trans
      (s.length_texts_issued catalog.config pool' paths).symm
    have hwarnings : (s.files.warnings (pool.issued catalog.config paths)).Perm
        (s.files.warnings (pool'.issued catalog.config paths)) :=
      ((pool.perm_issued catalog.config paths).trans
        (pool'.perm_issued catalog.config paths).symm).filterMap _
    cases failure with
    | some error =>
      have hleft : left = (_, _) := perform_load_of_some hc hp pool
      have hright : right = (_, _) := perform_load_of_some hc hp pool'
      rw [hleft, hright, takeAll_eq, takeAll_eq, hlength]
      refine ⟨rfl, hwarnings.append_left _, Or.inl ⟨_, rfl, rfl, rfl, rfl⟩, fun hw => ?_⟩
      rw [(batchOf_congr (Or.inr hw) s paths).1]
    | none =>
      have hleft : left = (_, _) := perform_load hc hp pool
      have hright : right = (_, _) := perform_load hc hp pool'
      rw [hleft, hright]
      refine ⟨?_, ?_, Or.inr ⟨paths, _, _, _, _, rfl, rfl, s.loaded_filled name catalog pool paths,
        s.loaded_filled name catalog pool' paths⟩, fun hw => ?_⟩
      · rw [filled_eq, filled_eq, hlength]
      · rw [filled_eq, filled_eq, hlength]
        exact (hwarnings.append_left _).append_right _
      · obtain ⟨hissued, hbatch⟩ := batchOf_congr (Or.inr hw) s paths
        rw [hissued, hbatch]

/-- A load leaves and answers the same in any two plain trees that differ only in ignored names, with
all below them, and in regular files whose extension is not read, as long as its workers are done
with the candidates in the same order. Otherwise it leaves and answers the same up to the order of
issue: the next ids lead to the same paths, texts and kinds, the files come in the same order, and
the same is logged. Its roots have no ignored name and no double dots in them. -/
theorem load_of_alike (hc : s.catalogs.get? name = some catalog)
    (h : FileSystem.Alike catalog.config s.files other)
    (hs : ∀ root ∈ roots, ∀ part ∈ root.parts, ¬catalog.config.ignores part ∧ part ≠ "..") :
    (∀ pool, (s.withFiles other).perform (.load name roots pool) =
      ((s.perform (.load name roots pool)).1.withFiles other,
        (s.perform (.load name roots pool)).2)) ∧
    ∀ pool pool' : Pool,
      let left := s.perform (.load name roots pool)
      let right := (s.withFiles other).perform (.load name roots pool')
      left.1.counter = right.1.counter ∧ left.1.log.Perm right.1.log ∧
        ((∃ error, left.2 = .error error ∧ right.2 = .error error ∧
            left.1.catalogs = s.catalogs ∧ right.1.catalogs = s.catalogs) ∨
          ∃ paths ids table ids' table', left.2 = .ok (.ids ids) ∧ right.2 = .ok (.ids ids') ∧
            s.Loaded name catalog paths left.1 table ids ∧
            s.Loaded name catalog paths right.1 table' ids') ∧
        ((∀ used ∈ [pool, pool'], used.size catalog.config.maxWorkers ≤ 1) →
          right = (left.1.withFiles other, left.2)) := by
  have hread : ∀ path ∈ (catalog.config.candidates s.files roots).1,
      other.readSource path = s.files.readSource path := by
    intro path hp
    rw [FileSystem.readSource, FileSystem.readSource, h.read_of_mem_candidates hs hp]
  have hsame : ∀ pool, (s.withFiles other).perform (.load name roots pool) =
      ((s.perform (.load name roots pool)).1.withFiles other,
        (s.perform (.load name roots pool)).2) := by
    intro pool
    have hc' : (s.withFiles other).catalogs.get? name = some catalog := hc
    simp only [perform, withCatalog, hc, hc', load_withFiles (h.candidates_eq hs) hread]
  refine ⟨hsame, fun pool pool' => ?_⟩
  intro left right
  obtain ⟨hcounter, hlog, houtcome, hone⟩ := load_of_pools hc roots pool pool'
  have hright : right = _ := hsame pool'
  rw [hright]
  refine ⟨hcounter, hlog, ?_, fun hw => ?_⟩
  · rcases houtcome with hfailed | ⟨paths, ids, table, ids', table', hl, hr, hleft, hloaded⟩
    · exact Or.inl hfailed
    · exact Or.inr ⟨paths, ids, table, ids', table', hl, hr, hleft,
        hloaded.of_alike ⟨rfl, rfl, rfl, rfl⟩⟩
  · rw [← hone hw]

/-- A file that is read, and beside it one that is not and an ignored directory. -/
def clutteredFiles : FileSystem :=
  (FileSystem.empty.applyAll [.write ⟨.here, ["d", "a.js"]⟩ [0x61],
    .write ⟨.here, ["d", "notes.txt"]⟩ [0x6E],
    .write ⟨.here, ["d", "node_modules", "b.js"]⟩ [0x62]]).1

/-- The file that is read, and one that is not at the place of a root. -/
def tidyFiles : FileSystem :=
  (FileSystem.empty.applyAll [.write ⟨.here, ["d", "a.js"]⟩ [0x61],
    .write ⟨.here, ["readme.md"]⟩ [0x72]]).1

theorem alike_clutteredFiles : FileSystem.Alike {} clutteredFiles tidyFiles := by
  have hplain : clutteredFiles.IsPlain := by
    unfold clutteredFiles
    exact FileSystem.isPlain_empty.applyAll (by decide)
  have hplain' : tidyFiles.IsPlain := by
    unfold tidyFiles
    exact FileSystem.isPlain_empty.applyAll (by decide)
  have hcluttered : clutteredFiles.entries = [("work", .directory [("d", .directory
      [("a.js", .file [0x61]), ("node_modules", .directory [("b.js", .file [0x62])]),
        ("notes.txt", .file [0x6E])])])] := by cbv
  have htidy : tidyFiles.entries = [("work", .directory
      [("d", .directory [("a.js", .file [0x61])]), ("readme.md", .file [0x72])])] := by cbv
  have hhere : clutteredFiles.here = ["work"] := by cbv
  have hhere' : tidyFiles.here = ["work"] := by cbv
  have hrefuses : clutteredFiles.refuses = FileSystem.empty.refuses := by cbv
  have hrefuses' : tidyFiles.refuses = FileSystem.empty.refuses := by cbv
  refine ⟨hplain, hplain', fun anchor => ?_, fun anchor names access _ => ?_, by cbv⟩
  · cases anchor <;>
      simp only [FileSystem.origin?, FileSystem.origin, hhere, hhere', hcluttered, htidy] <;> rfl
  · cases anchor <;>
      simp only [FileSystem.refusesFrom, FileSystem.origin, hhere, hhere', hrefuses, hrefuses']

theorem load_of_clutteredFiles :
    let s := (start clutteredFiles []).create "w" {}
    let roots : List Path := [⟨.here, ["d"]⟩, ⟨.here, ["readme.md"]⟩]
    (s.perform (.load "w" roots)).2 = .ok (.ids [1]) ∧
      (s.perform (.load "w" roots)).1.log = [.loaded 1] ∧
      ((s.withFiles tidyFiles).perform (.load "w" roots)).2 = .ok (.ids [1]) ∧
      ((s.withFiles tidyFiles).perform (.load "w" roots)).1.log = [.loaded 1] := by
  intro s roots
  have hc : s.catalogs.get? "w" = some ⟨{}, .empty⟩ := rfl
  have hroots : ∀ root ∈ roots, ∀ part ∈ root.parts,
      ¬({} : Config).ignores part ∧ part ≠ ".." := by decide
  have hids : (((start clutteredFiles []).create "w" {}).perform
      (.load "w" [⟨.here, ["d"]⟩, ⟨.here, ["readme.md"]⟩])).2 = .ok (.ids [1]) := by cbv
  have hlog : (((start clutteredFiles []).create "w" {}).perform
      (.load "w" [⟨.here, ["d"]⟩, ⟨.here, ["readme.md"]⟩])).1.log = [.loaded 1] := by cbv
  rw [(load_of_alike hc alike_clutteredFiles hroots).1]
  exact ⟨hids, hlog, hids, hlog⟩

end Session

end SourceAtlas
