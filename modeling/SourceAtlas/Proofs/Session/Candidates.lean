import Mathlib
import SourceAtlas.Proofs.FileSystem.Refusals
import SourceAtlas.Session.Basic

/-! # Candidates

The candidates below roots are those below each of them, one root after the other, up to the first
that fails. Below a directory they are the files that names lead to and the configuration reads, each
once and in the order of a walk. A directory that cannot be listed, such as one whose path has become
too long, is passed over with all that is below it. A tree that is too deep for a walk ends it.
-/

namespace SourceAtlas

namespace FileSystem

variable {fs : FileSystem} {skips : String → Bool} {root : Path} {entry : Entry}

theorem walk_of_skipped (h : skips root.name) : fs.walk skips root = [] :=
  if_pos h

theorem walk_of_none (h : fs.status root = .ok none) : fs.walk skips root = [] := by
  unfold walk
  split_ifs
  · rfl
  · rw [h]

theorem walk_of_directory {listing : Listing} (hs : ¬skips root.name)
    (h : fs.status root = .ok (some (.directory listing))) :
    fs.walk skips root = fs.walkEntry skips (leadOf root) 0 root (.directory listing) := by
  rw [walk, if_neg hs, h]

theorem walk_of_other (hs : ¬skips root.name) (h : fs.status root = .ok (some entry))
    (hd : ∀ listing, entry ≠ .directory listing) : fs.walk skips root = [.ok root] := by
  rw [walk, if_neg hs, h]
  cases entry with
  | directory listing => exact absurd rfl (hd listing)
  | file | link => rfl

theorem walk_of_error {error : FileError} (hs : ¬skips root.name)
    (h : fs.status root = .error error) : fs.walk skips root = [.error error] := by
  rw [walk, if_neg hs, h]

/-- What a root of a walk can be. -/
theorem walk_cases (fs : FileSystem) (skips : String → Bool) (root : Path) :
    (skips root.name ∨ fs.status root = .ok none) ∨ ¬skips root.name ∧
      ((∃ error, fs.status root = .error error) ∨
        (∃ entry, fs.status root = .ok (some entry) ∧ ∀ listing, entry ≠ .directory listing) ∨
        ∃ listing, fs.status root = .ok (some (.directory listing))) := by
  by_cases hs : skips root.name
  · exact Or.inl (Or.inl hs)
  cases hst : fs.status root with
  | error error => exact Or.inr ⟨hs, Or.inl ⟨error, rfl⟩⟩
  | ok found =>
    cases found with
    | none => exact Or.inl (Or.inr rfl)
    | some entry =>
      cases entry with
      | directory listing => exact Or.inr ⟨hs, Or.inr (Or.inr ⟨listing, rfl⟩)⟩
      | file | link => exact Or.inr ⟨hs, Or.inr (Or.inl ⟨_, rfl, nofun⟩)⟩

theorem nodup_upToError_walk (fs : FileSystem) (skips : String → Bool) (root : Path) :
    (upToError (fs.walk skips root)).1.Nodup := by
  rcases walk_cases fs skips root with (hs | hn) | ⟨hs, ⟨error, he⟩ | ⟨entry, he, hd⟩ | ⟨listing, he⟩⟩
  · rw [walk_of_skipped hs]
    exact List.nodup_nil
  · rw [walk_of_none hn]
    exact List.nodup_nil
  · rw [walk_of_error hs he]
    exact List.nodup_nil
  · rw [walk_of_other hs he hd]
    exact List.nodup_singleton root
  · rw [walk_of_directory hs he]
    exact nodup_upToError_walkEntry (distinct_of_status he)

end FileSystem

namespace Config

open FileSystem (upToError leadOf)

variable {config : Config} {fs : FileSystem} {root path : Path} {roots paths more : List Path}
  {error : FileError} {listing : Listing}

/-! ## One root after the other -/

/-- Errors stay where they are among the items that are kept. -/
theorem upToError_filter (items : List (Except FileError Path)) :
    upToError (items.filter config.keeps) =
      ((upToError items).1.filter config.reads, (upToError items).2) := by
  induction items with
  | nil => rfl
  | cons item rest ih =>
    cases item with
    | error e => rfl
    | ok path =>
      have hk : config.keeps (.ok path) = config.reads path := rfl
      rw [List.filter_cons, hk, upToError, List.filter_cons]
      split_ifs
      · rw [upToError, ih]
      · exact ih

theorem candidates_singleton (config : Config) (fs : FileSystem) (root : Path) :
    config.candidates fs [root] =
      ((upToError (fs.walk config.ignores root)).1.filter config.reads,
        (upToError (fs.walk config.ignores root)).2) := by
  rw [candidates, List.flatMap_singleton, upToError_filter]

theorem candidates_append (h : (config.candidates fs roots).2 = none) :
    config.candidates fs (roots ++ more) =
      ((config.candidates fs roots).1 ++ (config.candidates fs more).1,
        (config.candidates fs more).2) := by
  rw [candidates, List.flatMap_append]
  exact FileSystem.upToError_append h

theorem candidates_append_of_error (h : (config.candidates fs roots).2 = some error) :
    config.candidates fs (roots ++ more) = config.candidates fs roots := by
  rw [candidates, List.flatMap_append]
  exact FileSystem.upToError_append_of_error h

theorem candidates_snd_eq_none_iff : (config.candidates fs roots).2 = none ↔
    ∀ root ∈ roots, (config.candidates fs [root]).2 = none := by
  simp only [candidates, FileSystem.upToError_snd_eq_none_iff, List.mem_flatMap, not_exists, not_and,
    List.flatMap_singleton]
  constructor
  · intro h root hr e
    exact h e root hr
  · intro h e root hr
    exact h root hr e

theorem candidates_eq_flatMap (h : ∀ root ∈ roots, (config.candidates fs [root]).2 = none) :
    config.candidates fs roots =
      (roots.flatMap fun root => (config.candidates fs [root]).1, none) := by
  induction roots with
  | nil => rfl
  | cons root rest ih =>
    obtain ⟨hroot, hrest⟩ := List.forall_mem_cons.mp h
    rw [← List.singleton_append, candidates_append hroot, ih hrest, List.singleton_append,
      List.flatMap_cons]

/-- The first root that fails ends the candidates. -/
theorem candidates_of_error (h : ∀ root ∈ roots, (config.candidates fs [root]).2 = none)
    (he : (config.candidates fs [root]).2 = some error) :
    config.candidates fs (roots ++ root :: more) =
      ((roots.flatMap fun root => (config.candidates fs [root]).1) ++
        (config.candidates fs [root]).1, some error) := by
  rw [candidates_append (candidates_snd_eq_none_iff.mpr h), candidates_eq_flatMap h,
    ← List.singleton_append, candidates_append_of_error he, he]

/-- Below one root no candidate is found twice. -/
theorem nodup_candidates_singleton (config : Config) (fs : FileSystem) (root : Path) :
    (config.candidates fs [root]).1.Nodup := by
  rw [candidates_singleton]
  exact (FileSystem.nodup_upToError_walk fs config.ignores root).filter _

/-- Candidates are read and come from a walk of one of the roots. -/
theorem exists_walk_of_mem_candidates (h : path ∈ (config.candidates fs roots).1) :
    config.reads path ∧ ∃ root ∈ roots, .ok path ∈ fs.walk config.ignores root := by
  have hmem := (FileSystem.prefix_upToError _).subset
    (List.mem_map_of_mem (f := (Except.ok : Path → Except FileError Path)) h)
  obtain ⟨root, hr, hmem⟩ := List.mem_flatMap.mp hmem
  obtain ⟨hmem, hk⟩ := List.mem_filter.mp hmem
  exact ⟨hk, root, hr, hmem⟩

/-! ## One root -/

theorem candidates_of_absent (h : config.ignores root.name ∨ fs.status root = .ok none) :
    config.candidates fs [root] = ([], none) := by
  rw [candidates_singleton]
  rcases h with hs | hn
  · rw [FileSystem.walk_of_skipped hs]
    rfl
  · rw [FileSystem.walk_of_none hn]
    rfl

theorem candidates_of_other {entry : Entry} (hs : ¬config.ignores root.name)
    (h : fs.status root = .ok (some entry)) (hd : ∀ listing, entry ≠ .directory listing) :
    config.candidates fs [root] = (if config.reads root then [root] else [], none) := by
  rw [candidates_singleton, FileSystem.walk_of_other hs h hd]
  simp only [upToError, List.filter_singleton, cond_eq_ite]

theorem candidates_of_status_error (hs : ¬config.ignores root.name)
    (h : fs.status root = .error error) : config.candidates fs [root] = ([], some error) := by
  rw [candidates_singleton, FileSystem.walk_of_error hs h]
  rfl

/-- The candidates below a directory are in order, and they are files below it. -/
theorem mem_candidates_of_directory (hs : ¬config.ignores root.name)
    (h : fs.status root = .ok (some (.directory listing))) :
    (config.candidates fs [root]).1.Pairwise (listing.Precedes root) ∧
      ∀ path ∈ (config.candidates fs [root]).1, config.reads path ∧
        ∃ names, path = root.descend names ∧
          fs.FileBelow config.ignores (leadOf root) root listing names := by
  have hd := FileSystem.distinct_of_status h
  rw [candidates_singleton, FileSystem.walk_of_directory hs h]
  refine ⟨(FileSystem.pairwise_upToError_walkEntry hd).filter _, fun path hp => ?_⟩
  obtain ⟨hp, hr⟩ := List.mem_filter.mp hp
  have hp := (FileSystem.prefix_upToError _).subset
    (List.mem_map_of_mem (f := (Except.ok : Path → Except FileError Path)) hp)
  obtain ⟨names, hy, hpath⟩ := FileSystem.exists_yields_of_mem hd hp
  exact ⟨hr, names, hpath, (FileSystem.yields_iff_fileBelow hd).mp hy⟩

theorem candidates_snd_of_tooDeep (hs : ¬config.ignores root.name)
    (h : fs.status root = .ok (some (.directory listing)))
    (ht : fs.TooDeep config.ignores (leadOf root) root listing) :
    (config.candidates fs [root]).2 = some .tooDeep := by
  have hd := FileSystem.distinct_of_status h
  rw [candidates_singleton, FileSystem.walk_of_directory hs h]
  refine FileSystem.upToError_of_forall_error (fun e he => ?_) ?_
  · exact ((FileSystem.error_mem_walkEntry hd).mp he).1
  · exact (FileSystem.error_mem_walkEntry hd).mpr ⟨rfl, (FileSystem.tooDeep_iff hd).mp ht⟩

/-- As long as the tree is not too deep, all files below a directory that are read are found. -/
theorem candidates_of_not_tooDeep (hs : ¬config.ignores root.name)
    (h : fs.status root = .ok (some (.directory listing)))
    (ht : ¬fs.TooDeep config.ignores (leadOf root) root listing) :
    (config.candidates fs [root]).2 = none ∧
      ∀ path, path ∈ (config.candidates fs [root]).1 ↔ config.reads path ∧
        ∃ names, path = root.descend names ∧
          fs.FileBelow config.ignores (leadOf root) root listing names := by
  have hd := FileSystem.distinct_of_status h
  have hdeep := (FileSystem.tooDeep_iff hd).not.mp ht
  have hnone : (upToError (fs.walkEntry config.ignores (leadOf root) 0 root
      (.directory listing))).2 = none :=
    FileSystem.upToError_snd_eq_none_iff.mpr fun e he =>
      hdeep ((FileSystem.error_mem_walkEntry hd).mp he).2
  have hitems := FileSystem.map_ok_of_upToError (Prod.ext rfl hnone)
  refine ⟨by rw [candidates_singleton, FileSystem.walk_of_directory hs h, hnone], fun path => ?_⟩
  refine ⟨(mem_candidates_of_directory hs h).2 path, ?_⟩
  rintro ⟨hr, names, rfl, hf⟩
  have hmem := FileSystem.mem_walkEntry_of_yields ((FileSystem.yields_iff_fileBelow hd).mpr hf) hdeep
  rw [hitems] at hmem
  rw [candidates_singleton, FileSystem.walk_of_directory hs h]
  refine List.mem_filter.mpr ⟨?_, hr⟩
  simpa using hmem

/-- When the candidates below one root fail. -/
theorem candidates_snd_eq_some_iff : (config.candidates fs [root]).2 = some error ↔
    ¬config.ignores root.name ∧ (fs.status root = .error error ∨
      error = .tooDeep ∧ ∃ listing, fs.status root = .ok (some (.directory listing)) ∧
        fs.TooDeep config.ignores (leadOf root) root listing) := by
  rcases FileSystem.walk_cases fs config.ignores root with
    ha | ⟨hs, ⟨other, he⟩ | ⟨entry, he, hd⟩ | ⟨listing, he⟩⟩
  · rw [candidates_of_absent ha]
    refine iff_of_false nofun ?_
    rintro ⟨hs, h⟩
    have hn := ha.resolve_left hs
    simp [hn] at h
  · rw [candidates_of_status_error hs he]
    simp [hs, he]
  · rw [candidates_of_other hs he hd]
    refine iff_of_false nofun ?_
    rintro ⟨-, h | ⟨-, listing, h, -⟩⟩
    · simp [he] at h
    · exact hd listing (Option.some.inj (Except.ok.inj (he.symm.trans h)))
  · by_cases ht : fs.TooDeep config.ignores (leadOf root) root listing
    · rw [candidates_snd_of_tooDeep hs he ht]
      simp [hs, he, ht, eq_comm]
    · rw [(candidates_of_not_tooDeep hs he ht).1]
      simp [he, ht]

/-- The candidates below roots are those below each in turn, as long as none of these fails. There
are none at a root that is ignored or absent, and they fail if the status of a root is not told. A
root that is no directory is the only one if it is read. Below a directory they are, each once and in
the order of a walk, files that are read and to which names lead that are not ignored: through
directories which are listed and are not links, to a file or a link that does not lead to a
directory. They are all of these, or else the tree is too deep to be walked through, and they fail of
that. -/
theorem candidates_of_roots (config : Config) (fs : FileSystem) (roots : List Path) :
    ((∀ root ∈ roots, (config.candidates fs [root]).2 = none) →
      config.candidates fs roots =
        (roots.flatMap fun root => (config.candidates fs [root]).1, none)) ∧
      ∀ root ∈ roots,
        (config.ignores root.name ∨ fs.status root = .ok none →
          config.candidates fs [root] = ([], none)) ∧
        (∀ error, ¬config.ignores root.name → fs.status root = .error error →
          config.candidates fs [root] = ([], some error)) ∧
        (∀ entry, ¬config.ignores root.name → fs.status root = .ok (some entry) →
          (∀ listing, entry ≠ .directory listing) →
            config.candidates fs [root] = (if config.reads root then [root] else [], none)) ∧
        ∀ listing : Listing, ¬config.ignores root.name →
          fs.status root = .ok (some (.directory listing)) →
            ∃ paths failure, config.candidates fs [root] = (paths, failure) ∧
              paths.Nodup ∧ paths.Pairwise (listing.Precedes root) ∧
              (∀ path ∈ paths, config.reads path ∧ ∃ names, path = root.descend names ∧
                fs.FileBelow config.ignores (leadOf root) root listing names) ∧
              (fs.TooDeep config.ignores (leadOf root) root listing →
                failure = some .tooDeep) ∧
              (¬fs.TooDeep config.ignores (leadOf root) root listing → failure = none ∧
                ∀ names, config.reads (root.descend names) →
                  fs.FileBelow config.ignores (leadOf root) root listing names →
                    root.descend names ∈ paths) := by
  refine ⟨candidates_eq_flatMap, fun root _ => ⟨candidates_of_absent,
    fun error hs he => candidates_of_status_error hs he,
    fun entry hs he hd => candidates_of_other hs he hd, fun listing hs he => ?_⟩⟩
  obtain ⟨hpairwise, hfiles⟩ := mem_candidates_of_directory hs he
  refine ⟨_, _, rfl, nodup_candidates_singleton config fs root, hpairwise, hfiles,
    candidates_snd_of_tooDeep hs he, fun ht => ?_⟩
  obtain ⟨hnone, hall⟩ := candidates_of_not_tooDeep hs he ht
  exact ⟨hnone, fun names hr hf => (hall _).mpr ⟨hr, names, rfl, hf⟩⟩

/-- Below `d` lie a link to itself and one to `d`, which is not descended into. -/
def linkedFiles : FileSystem :=
  (FileSystem.empty.applyAll
    [.write ⟨.here, ["d", "a.js"]⟩ [], .link ⟨.here, ["d", "b.js"]⟩ "b.js",
      .link ⟨.here, ["d", "e.js"]⟩ ".", .write ⟨.here, ["d", "c", "f.js"]⟩ []]).1

theorem candidates_of_linkedFiles :
    let here : Path := ⟨.here, []⟩
    let roots : List Path := [here, here.descend ["d", "a.js"]]
    (∀ root ∈ roots, (({} : Config).candidates linkedFiles [root]).2 = none) ∧
      ({} : Config).candidates linkedFiles roots =
        ([["d", "a.js"], ["d", "b.js"], ["d", "c", "f.js"], ["d", "a.js"]].map here.descend,
          none) := by
  intro here roots
  have hhere : ({} : Config).candidates linkedFiles [here] =
      ([["d", "a.js"], ["d", "b.js"], ["d", "c", "f.js"]].map here.descend, none) := by cbv
  have hfile : ({} : Config).candidates linkedFiles [here.descend ["d", "a.js"]] =
      ([here.descend ["d", "a.js"]], none) := by cbv
  have hnone : ∀ root ∈ roots, (({} : Config).candidates linkedFiles [root]).2 = none :=
    List.forall_mem_cons.mpr ⟨congrArg Prod.snd hhere,
      List.forall_mem_singleton.mpr (congrArg Prod.snd hfile)⟩
  refine ⟨hnone, ?_⟩
  rw [(candidates_of_roots {} linkedFiles roots).1 hnone, List.flatMap_cons,
    List.flatMap_singleton, hhere, hfile]
  rfl

/-! ## A directory that cannot be listed -/

/-- Steps into `d` and back, so many times, and then others. -/
def detours (rest : List String) : (count : ℕ) → List String
  | 0 => rest
  | count + 1 => "d" :: ".." :: detours rest count

variable {rest : List String}

theorem detours_ne_nil (h : rest ≠ []) (count : ℕ) : detours rest count ≠ [] := by
  cases count with
  | zero => exact h
  | succ count => exact List.cons_ne_nil _ _

theorem getLast?_detours (h : rest ≠ []) (count : ℕ) :
    (detours rest count).getLast? = rest.getLast? := by
  induction count with
  | zero => rfl
  | succ count ih =>
    rw [← ih, detours, List.getLast?_cons_of_ne_nil (List.cons_ne_nil _ _),
      List.getLast?_cons_of_ne_nil (detours_ne_nil h count)]

theorem intercalate_detours_succ (h : rest ≠ []) (count : ℕ) :
    "/".intercalate (detours rest (count + 1)) =
      "d/../" ++ "/".intercalate (detours rest count) := by
  rw [detours, String.intercalate_cons_cons, String.intercalate_cons_of_ne_nil
    (detours_ne_nil h count), ← String.append_assoc, ← String.append_assoc]
  rfl

theorem utf8ByteSize_detours (h : rest ≠ []) (count : ℕ) :
    ("/".intercalate (detours rest count)).utf8ByteSize =
      5 * count + ("/".intercalate rest).utf8ByteSize := by
  induction count with
  | zero => simp [detours]
  | succ count ih =>
    rw [intercalate_detours_succ h, String.utf8ByteSize_append, ih]
    have hd : "d/../".utf8ByteSize = 5 := by decide
    omega

theorem nul_not_mem_detours (h : rest ≠ []) (hn : '\x00' ∉ ("/".intercalate rest).toList)
    (count : ℕ) : '\x00' ∉ ("/".intercalate (detours rest count)).toList := by
  induction count with
  | zero => exact hn
  | succ count ih =>
    rw [intercalate_detours_succ h, String.toList_append, List.mem_append]
    exact not_or.mpr ⟨by decide, ih⟩

theorem follow_detours {fs : FileSystem} {inner listing : Listing} {chain rest : List String}
    (ho : fs.Opens chain "d" listing) (hf : listing.find? "d" = some (.directory inner))
    (hi : fs.Opens (chain ++ ["d"]) ".." inner) (links count : ℕ) :
    fs.follow .find links chain (detours rest count) = fs.follow .find links chain rest := by
  induction count with
  | zero => rfl
  | succ count ih =>
    rw [detours, FileSystem.follow_enter ho ⟨by decide, by decide⟩ (by decide) hf nofun,
      FileSystem.follow_leave hi, List.dropLast_concat]
    exact ih

def deepFiles : FileSystem :=
  (FileSystem.empty.apply (.write ⟨.here, ["d", "long", "x.js"]⟩ [])).1

theorem entries_deepFiles : deepFiles.entries = [("work", .directory
    [("d", .directory [("long", .directory [("x.js", .file [])])])])] := by cbv

/-- A path to `d` that is four bytes short of the limit. -/
def windingRoot : Path := ⟨.here, detours ["d"] 818⟩

theorem detours_append (rest names : List String) (count : ℕ) :
    detours rest count ++ names = detours (rest ++ names) count := by
  induction count with
  | zero => rfl
  | succ count ih => rw [detours, detours, List.cons_append, List.cons_append, ih]

theorem text_descend_windingRoot (names : List String) :
    (windingRoot.descend names).text = "/".intercalate (detours ("d" :: names) 818) := by
  have hp : (windingRoot.descend names).parts = detours ("d" :: names) 818 := detours_append _ _ _
  have hne := detours_ne_nil (List.cons_ne_nil "d" names) 818
  rw [Path.text, hp, if_neg fun h => hne h.2]
  exact String.empty_append

theorem isTooLong_descend_windingRoot (names : List String) :
    FileSystem.isTooLong 0 (windingRoot.descend names) ↔
      5 < ("/".intercalate ("d" :: names)).utf8ByteSize := by
  rw [FileSystem.isTooLong, decide_eq_true_iff, text_descend_windingRoot,
    utf8ByteSize_detours (List.cons_ne_nil _ _), FileSystem.maxPath]
  omega

theorem reach_windingRoot : deepFiles.reach windingRoot =
    .ok (["work", "d"], .directory [("long", .directory [("x.js", .file [])])]) := by
  have ht := text_descend_windingRoot []
  rw [Path.descend_nil] at ht
  have hnul : windingRoot.text.contains '\x00' = false := by
    rw [ht, String.contains_char_eq]
    exact decide_eq_false (nul_not_mem_detours (List.cons_ne_nil _ _) (by decide) _)
  have hlong : ¬FileSystem.maxPath < windingRoot.text.utf8ByteSize := by
    rw [ht, utf8ByteSize_detours (List.cons_ne_nil _ _)]
    decide
  have hhere : FileSystem.entryAt? deepFiles.entries ["work"] = some (.directory
      [("d", .directory [("long", .directory [("x.js", .file [])])])]) := by
    rw [entries_deepFiles]
    rfl
  have hd : FileSystem.entryAt? deepFiles.entries ["work", "d"] =
      some (.directory [("long", .directory [("x.js", .file [])])]) := by
    rw [entries_deepFiles]
    rfl
  have hpath : deepFiles.followPath .find windingRoot = .ok (.taken ["work", "d"]) := by
    have horigin : deepFiles.here = ["work"] := by cbv
    change deepFiles.follow .find _ deepFiles.here (detours ["d"] 818) = _
    rw [horigin]
    have hfind : Listing.find? [("d", .directory [("long", .directory [("x.js", .file [])])])] "d" =
        some (.directory [("long", .directory [("x.js", .file [])])]) := rfl
    rw [follow_detours ⟨hhere, by cbv⟩ hfind ⟨hd, by cbv⟩,
      FileSystem.follow_enter ⟨hhere, by cbv⟩ ⟨by decide, by decide⟩ (by decide) hfind (by simp),
      FileSystem.follow]
    rfl
  have hspot : deepFiles.spot .find windingRoot = .ok (.taken ["work", "d"]) := by
    rw [FileSystem.spot, if_neg (by simp [hnul]), if_neg hlong, hpath]
  simp only [FileSystem.reach, hspot, hd]

theorem status_windingRoot : deepFiles.status windingRoot =
    .ok (some (.directory [("long", .directory [("x.js", .file [])])])) :=
  FileSystem.status_of_reach reach_windingRoot

theorem name_windingRoot : windingRoot.name = "d" := by
  rw [Path.name, windingRoot, getLast?_detours (List.cons_ne_nil _ _)]
  rfl

theorem leadOf_windingRoot : FileSystem.leadOf windingRoot = 0 := by
  have ht := text_descend_windingRoot []
  rw [Path.descend_nil] at ht
  refine if_neg fun heq => ?_
  have hsize := congrArg String.utf8ByteSize (ht.symm.trans heq)
  rw [utf8ByteSize_detours (List.cons_ne_nil _ _)] at hsize
  revert hsize
  decide

/-- What a walk is promised to find below a directory fails to be found where the path of the
directory that holds it is too long. -/
theorem candidates_of_windingRoot :
    deepFiles.status windingRoot =
        .ok (some (.directory [("long", .directory [("x.js", .file [])])])) ∧
      ¬({} : Config).ignores windingRoot.name ∧
      ¬∀ path, path ∈ (({} : Config).candidates deepFiles [windingRoot]).1 ↔
        ({} : Config).reads path ∧ ∃ names, path = windingRoot.descend names ∧ names ≠ [] ∧
          (∀ name ∈ names, ¬({} : Config).ignores name) ∧
          ∃ entry, FileSystem.entryAt? [("long", .directory [("x.js", .file [])])] names =
              some entry ∧ ((∃ bytes, entry = .file bytes) ∨
                ∃ target, entry = .link target ∧ deepFiles.isDirectory path ≠ .ok true) := by
  have hi : ¬({} : Config).ignores windingRoot.name := by
    rw [name_windingRoot]
    decide
  have hroot : FileSystem.isTooLong 0 windingRoot = false := by
    rw [← Bool.not_eq_true, ← windingRoot.descend_nil, isTooLong_descend_windingRoot]
    decide
  have hlists : deepFiles.lists 0 windingRoot := by
    have hlisted : deepFiles.refuses ["work", "d"] .list = none := by cbv
    simp only [FileSystem.lists, hroot, reach_windingRoot, hlisted]
    rfl
  have hlong : FileSystem.isTooLong 0 (windingRoot.child "long") :=
    (isTooLong_descend_windingRoot ["long"]).mpr (by decide)
  have hskips : ¬deepFiles.lists 0 (windingRoot.child "long") := by
    simp [FileSystem.lists, hlong]
  have hw := FileSystem.walk_of_directory hi status_windingRoot
  have hdeepest : deepFiles.isDeepest 0 = false := by cbv
  rw [leadOf_windingRoot, FileSystem.walkEntry_of_lists hlists (by simp [hdeepest]),
    FileSystem.walkListing, FileSystem.walkEntry_of_not_lists hskips] at hw
  refine ⟨status_windingRoot, hi, fun h => ?_⟩
  have hx := (h (windingRoot.descend ["long", "x.js"])).mpr ⟨?_, ["long", "x.js"], rfl,
    by decide, by decide, .file [], rfl, Or.inl ⟨[], rfl⟩⟩
  · rw [candidates_singleton, hw] at hx
    simp [FileSystem.filesIn, FileSystem.countsAsFile, FileSystem.walkListing, upToError] at hx
  · have hn : (windingRoot.descend ["long", "x.js"]).name = "x.js" := by
      rw [Path.name, Path.descend, List.getLast?_append]
      rfl
    rw [reads, Path.extension, hn]
    decide

end Config

end SourceAtlas
